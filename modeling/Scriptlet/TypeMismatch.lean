import Scriptlet.Value

/-!
# Where types are checked

A value is checked against a type at the boundaries of a program's parts.  The
same places are named in errors of a run and in errors of the folding pass.
-/

namespace Scriptlet

inductive TypedPlace where
  | assignment (name : String)
  | argument (param function : String)
  | returned (function : String)
  | result (function : String)
  | taskResult (function : String)
  | ifCondition
  | whileCondition
deriving DecidableEq, Repr

namespace TypedPlace

/-- The place in words.  How a word of the language is set off is left open. -/
def text (word : String -> String) : TypedPlace -> String
  | assignment name => "assignment to `" ++ name ++ "`"
  | argument param function => "argument `" ++ param ++ "` of `" ++ function ++ "`"
  | returned function => "return value of `" ++ function ++ "`"
  | result function => "result of `" ++ function ++ "`"
  | taskResult function => "result of async `" ++ function ++ "`"
  | ifCondition => word "if" ++ " condition"
  | whileCondition => word "while" ++ " condition"

end TypedPlace

/-- A value of the wrong type at a place, or no value where one is needed. -/
structure TypeMismatch where
  place : TypedPlace
  expected : ValueType
  found : ValueType
deriving DecidableEq, Repr

namespace TypeMismatch

def message (word : String -> String) (m : TypeMismatch) : String :=
  m.place.text word ++ ": expected `" ++ m.expected.text ++ "`, found `" ++ m.found.text ++ "`"

end TypeMismatch
end Scriptlet
