import Scriptlet.Decimal.Reading
import Scriptlet.Host
import Scriptlet.Program.Extern
import Scriptlet.Text.Blank

/-!
# The prelude

The names that every program starts with unless it asks for none: output, input,
two assertions and one constant.
-/

namespace Scriptlet
namespace Prelude

inductive Builtin where
  | writeLn | assert | assertEquals | readInt
deriving DecidableEq, Repr

namespace Builtin

def all : List Builtin :=
  [writeLn, assert, assertEquals, readInt]

def name : Builtin -> String
  | writeLn => "writeLn"
  | assert => "assert"
  | assertEquals => "assertEquals"
  | readInt => "readInt"

def params : Builtin -> List (String × ValueType)
  | writeLn => [("value", .any)]
  | assert => [("condition", .bool)]
  | assertEquals => [("expected", .any), ("actual", .any)]
  | readInt => []

def result : Builtin -> ValueType
  | readInt => .int
  | _ => .none

def arity (b : Builtin) : Nat :=
  b.params.length

end Builtin

/-!
# Bodies
-/

abbrev HostRun (α : Type) := Run String Host α

def argument (b : Builtin) (call : NativeCall) (index : Nat) : HostRun Value :=
  match call.args[index]? with
  | some value => pure value
  | none => Run.fail (b.name ++ " is missing argument " ++ toString (index + 1))

def report (call : NativeCall) (passed : Bool) (message : String) : HostRun (Option Value) := do
  Run.modify (·.report { passed := passed, pos := call.pos, message := message })
  return none

def writeLn : Native Host := fun call => do
  let value ← argument .writeLn call 0
  Run.modify (·.writeLine value.text)
  return none

def assert : Native Host := fun call => do
  let value ← argument .assert call 0
  match value.truth? with
  | some passed =>
      report call passed (if passed then "assertion holds" else "assertion failed")
  | none => Run.fail ("assert expects a bool, found " ++ value.type.text)

/-- Values of two types are never equal, not even `1` and `1.0`. -/
def assertEquals : Native Host := fun call => do
  let expected ← argument .assertEquals call 0
  let actual ← argument .assertEquals call 1
  let message :=
    if expected.same actual then
      expected.text ++ " equals " ++ actual.text
    else
      "expected " ++ expected.type.text ++ " `" ++ expected.text ++ "`, found " ++
        actual.type.text ++ " `" ++ actual.text ++ "`"
  report call (expected.same actual) message

def nextLine : HostRun (Option String) := fun host =>
  let (line, rest) := host.readLine
  .done line rest

def readInt : Native Host := fun _ => do
  match ← nextLine with
  | none => Run.fail "readInt reached end of input"
  | some line =>
      let text := Text.trimBlanks line
      match Reading.int64? text with
      | some n => return some (.int n)
      | none => Run.fail ("readInt expected an integer, found `" ++ text ++ "`")

def Builtin.body : Builtin -> Native Host
  | writeLn => Prelude.writeLn
  | assert => Prelude.assert
  | assertEquals => Prelude.assertEquals
  | readInt => Prelude.readInt

/-!
# Names
-/

def pi : Float :=
  nearestFloat false 31415 10000

variable {σ : Type} [HasHost σ]

def Builtin.declaration (b : Builtin) : Extern (Native σ) :=
  .function b.name (if b.params.isEmpty then none else some b.params) b.result b.body.lift

def externs : List (Extern (Native σ)) :=
  Builtin.all.map Builtin.declaration ++ [.const "pi" .float (.float pi)]

end Prelude
end Scriptlet
