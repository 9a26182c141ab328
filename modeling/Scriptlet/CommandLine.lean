import Scriptlet.CommandLine.Execution
import Scriptlet.CommandLine.Help
import Scriptlet.File.Error

/-!
# The command line

Arguments, files and standard input determine both output streams and the exit
status.
-/

namespace Scriptlet
namespace CommandLine

open Text (Style)

def unreadable (color : Bool) (path : String) (e : FileError) : Transcript :=
  { stdout := ""
    stderr := Help.error color
      [Help.plain "reading ", (Style.underline, path), Help.plain (": " ++ e.message)]
    status := .failure }

/-- What a command meets when it is given. -/
structure Surroundings where
  color : Bool
  stdin : String
  /-- The texts of the files. -/
  file : String -> Except FileError String

namespace Surroundings

def onSource (s : Surroundings) (format : Format) (path : String)
    (command : String -> Option Conclusion) : Option Transcript :=
  match s.file path with
  | .error e => some (unreadable s.color path e)
  | .ok source => (command source).map (·.transcript s.color format source path)

end Surroundings

namespace Request

def path? (r : Request) : Option String :=
  match r.command with
  | .usage => none
  | .version => none
  | .inspect _ path => some path
  | .run _ path => some path

def readsInput (r : Request) : Bool :=
  match r.command with
  | .run _ _ => true
  | _ => false

def perform (fuel : Nat) (s : Surroundings) (r : Request) : Option Transcript :=
  match r.command with
  | .usage => some { stdout := Help.usage s.color, stderr := "", status := .success }
  | .version => some { stdout := Help.version s.color, stderr := "", status := .success }
  | .inspect stage path => s.onSource r.format path fun source => some (inspect stage source)
  | .run mode path => s.onSource r.format path fun source => run fuel mode source s.stdin

end Request

/-- The transcript of the program for its arguments.  There is none if the fuel
does not suffice for a run. -/
def perform (fuel : Nat) (s : Surroundings) (args : List String) : Option Transcript :=
  match Request.ofArguments args with
  | .error refusal => some (refusal.transcript s.color)
  | .ok request => request.perform fuel s

end CommandLine
end Scriptlet
