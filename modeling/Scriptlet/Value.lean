import Scriptlet.Decimal.FloatText

/-!
# Values and their types

A value is a truth value, a 64-bit whole number or a double.  The types `none`
and `any` have no values of their own: `none` is the type of what yields nothing
and `any` accepts every value.
-/

namespace Scriptlet

inductive ValueType where
  | none | any | bool | int | float
deriving DecidableEq, Repr, Inhabited

namespace ValueType

def text : ValueType -> String
  | none => "none"
  | any => "any"
  | bool => "bool"
  | int => "int"
  | float => "float"

def accepts (expected actual : ValueType) : Bool :=
  expected == any || expected == actual

@[simp] theorem any_accepts (actual : ValueType) : any.accepts actual = true :=
  rfl

@[simp] theorem accepts_self (t : ValueType) : t.accepts t = true := by
  cases t <;> rfl

end ValueType

inductive Value where
  | bool (b : Bool)
  | int (n : Int64)
  | float (x : Float)
deriving DecidableEq, Inhabited

namespace Value

def type : Value -> ValueType
  | bool _ => .bool
  | int _ => .int
  | float _ => .float

def text : Value -> String
  | bool b => if b then "true" else "false"
  | int n => toString n.toInt
  | float x => FloatText.plain x

def truth? : Value -> Option Bool
  | bool b => some b
  | _ => Option.none

def number? : Value -> Option Float
  | bool _ => Option.none
  | int n => some n.toFloat
  | float x => some x

/-- Equality as a program sees it: within one type, and by number for floats, so
that no NaN equals anything and the two zeros are equal. -/
def same : Value -> Value -> Bool
  | bool a, bool b => a == b
  | int a, int b => a == b
  | float a, float b => a == b
  | _, _ => false

end Value

def yieldType : Option Value -> ValueType
  | none => .none
  | some value => value.type

@[simp] theorem yieldType_none : yieldType none = .none :=
  rfl

@[simp] theorem yieldType_some (value : Value) : yieldType (some value) = value.type :=
  rfl

end Scriptlet
