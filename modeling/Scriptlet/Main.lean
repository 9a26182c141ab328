import Scriptlet.CommandLine

/-!
# The program

Reads what a command needs, performs it and writes its transcript.
-/

namespace Scriptlet
namespace Main

open CommandLine

def isNumber (number expected : UInt32) : Bool :=
  number == expected || 0 - number == expected

def fileError (e : IO.Error) : FileError :=
  match e with
  | .noFileOrDirectory _ _ _ => .missing
  | .permissionDenied _ _ _ => .denied
  | .inappropriateType _ number _ => if isNumber number 20 then .notDirectory else .directory
  | .invalidArgument _ number _ =>
      if isNumber number 36 then .nameTooLong else .unreadable (toString e)
  | _ => .unreadable (toString e)

def readFile (path : String) : IO (Except FileError String) := do
  try
    return textOfBytes (← IO.FS.readBinFile path)
  catch e =>
    return .error (fileError e)

def readInput : IO String := do
  let bytes ← (← IO.getStdin).readBinToEnd
  return (textOfBytes bytes).toOption.getD ""

/-- Whether output is colored: as the environment says, or else on a terminal. -/
def wantsColor : IO Bool := do
  if (← IO.getEnv "NO_COLOR").isSome then
    return false
  else if (← IO.getEnv "FORCE_COLOR").isSome then
    return true
  else
    (← IO.getStdout).isTty

def fuel : Nat := 4611686018427387904

def surroundings (request : Request) : IO Surroundings := do
  let file ←
    match request.path? with
    | some path => readFile path
    | none => pure (.error .missing)
  let stdin ← if request.readsInput then readInput else pure ""
  return { color := ← wantsColor, stdin := stdin, file := fun _ => file }

def transcript (args : List String) : IO (Option Transcript) := do
  match Request.ofArguments args with
  | .error refusal => return some (refusal.transcript (← wantsColor))
  | .ok request => return request.perform fuel (← surroundings request)

end Main
end Scriptlet

def main (args : List String) : IO UInt32 := do
  match ← Scriptlet.Main.transcript args with
  | none => return 1
  | some t =>
      (← IO.getStdout).putStr t.stdout
      (← IO.getStderr).putStr t.stderr
      return UInt32.ofNat t.status.code
