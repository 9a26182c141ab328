/-!
# Arguments

The words after the name of the program: options for every command anywhere among
them, and then a command with its own arguments.
-/

namespace Scriptlet
namespace CommandLine

/-- Diagnostics are shown to people or as a report. -/
inductive Format where
  | human | json
deriving DecidableEq, Repr

inductive RunMode where
  | optimized
  | plain
  /-- Both ways, to see that they agree. -/
  | compared
deriving DecidableEq, Repr

/-- What is printed about a source that is not run. -/
inductive Stage where
  | lex | parse | optimize
deriving DecidableEq, Repr

namespace Stage

def word : Stage -> String
  | lex => "lex"
  | parse => "parse"
  | optimize => "optimize"

end Stage

inductive Command where
  | usage
  | version
  | inspect (stage : Stage) (path : String)
  | run (mode : RunMode) (path : String)
deriving DecidableEq, Repr

structure Request where
  format : Format
  command : Command
deriving DecidableEq, Repr

inductive Refusal where
  | formatMissing
  | formatUnknown (value : String)
  | pathMissing (stage : Stage)
  | runPathMissing
  | runFlagUnknown (flag : String)
  | commandUnknown (word : String)
deriving DecidableEq, Repr

/-!
# Options for every command
-/

namespace Format

def ofText (value : String) : Except Refusal Format :=
  if value = "human" then .ok human
  else if value = "json" then .ok json
  else .error (.formatUnknown value)

end Format

def formatOption : String := "--format="

def isFormatOption (arg : String) : Bool :=
  formatOption.toList.isPrefixOf arg.toList

def formatValue (arg : String) : String :=
  String.ofList (arg.toList.drop formatOption.length)

def isLogOption (arg : String) : Bool :=
  ["-v", "--verbose", "-q", "--quiet"].contains arg

/-- Takes the options for every command out of the arguments.  The last format
counts. -/
def takeOptions (format : Format) : List String -> Except Refusal (Format × List String)
  | [] => .ok (format, [])
  | arg :: rest =>
      if arg = "--format" then
        match rest with
        | [] => .error .formatMissing
        | value :: rest =>
            match Format.ofText value with
            | .ok format => takeOptions format rest
            | .error e => .error e
      else if isFormatOption arg then
        match Format.ofText (formatValue arg) with
        | .ok format => takeOptions format rest
        | .error e => .error e
      else if arg = "--json" then
        takeOptions .json rest
      else if isLogOption arg then
        takeOptions format rest
      else
        (takeOptions format rest).map fun (format, others) => (format, arg :: others)

/-!
# Commands
-/

/-- What the arguments of a run ask for so far. -/
structure RunArguments where
  optimize : Bool
  compare : Bool
  path : Option String

namespace RunArguments

def none : RunArguments :=
  { optimize := true, compare := false, path := .none }

def mode (a : RunArguments) : RunMode :=
  if a.compare then .compared
  else if a.optimize then .optimized
  else .plain

def read : RunArguments -> List String -> Except Refusal RunArguments
  | a, [] => .ok a
  | a, arg :: rest =>
      if arg = "--no-optimize" then read { a with optimize := false } rest
      else if arg = "--compare" then read { a with compare := true } rest
      else if arg.toList.head? = some '-' then .error (.runFlagUnknown arg)
      else read { a with path := some arg } rest

end RunArguments

def runCommand (args : List String) : Except Refusal Command :=
  match RunArguments.none.read args with
  | .error e => .error e
  | .ok a =>
      match a.path with
      | some path => .ok (.run a.mode path)
      | none => .error .runPathMissing

def inspectCommand (stage : Stage) : List String -> Except Refusal Command
  | [] => .error (.pathMissing stage)
  | path :: _ => .ok (.inspect stage path)

/-- The end of the names of files that are run without a command. -/
def sourceSuffix : String := ".tl"

def isSourcePath (word : String) : Bool :=
  sourceSuffix.toList.isSuffixOf word.toList

def Command.ofArguments : List String -> Except Refusal Command
  | [] => .ok .usage
  | word :: args =>
      if word = "lex" then inspectCommand .lex args
      else if word = "parse" then inspectCommand .parse args
      else if word = "optimize" then inspectCommand .optimize args
      else if word = "run" then runCommand args
      else if ["help", "--help", "-h"].contains word then .ok .usage
      else if ["version", "--version", "-V"].contains word then .ok .version
      else if isSourcePath word then .ok (.run .optimized word)
      else .error (.commandUnknown word)

def Request.ofArguments (args : List String) : Except Refusal Request :=
  match takeOptions .human args with
  | .error e => .error e
  | .ok (format, args) =>
      (Command.ofArguments args).map fun command => { format := format, command := command }

end CommandLine
end Scriptlet
