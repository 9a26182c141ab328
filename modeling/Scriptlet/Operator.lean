import Scriptlet.Value

/-!
# Operators

The meaning of the operators on values, and why one cannot be applied.  Whole
numbers are exact: a result that does not fit in 64 bits is an overflow.
-/

namespace Scriptlet

inductive BinaryOp where
  | equal | notEqual | less | greater | lessEqual | greaterEqual
  | add | sub | or | xor
  | mul | div | and
  | pow
deriving DecidableEq, Repr

inductive UnaryOp where
  | plus | neg | not
deriving DecidableEq, Repr

namespace BinaryOp

def symbol : BinaryOp -> String
  | equal => "="
  | notEqual => "<>"
  | less => "<"
  | greater => ">"
  | lessEqual => "<="
  | greaterEqual => ">="
  | add => "+"
  | sub => "-"
  | or => "or"
  | xor => "xor"
  | mul => "*"
  | div => "/"
  | and => "and"
  | pow => "^"

end BinaryOp

namespace UnaryOp

def symbol : UnaryOp -> String
  | plus => "+"
  | neg => "-"
  | not => "not"

end UnaryOp

inductive OpError where
  | operandTypes (op : BinaryOp) (left right : ValueType)
  | operandType (op : UnaryOp) (operand : ValueType)
  | divisionByZero
  | overflow (symbol : String)
deriving DecidableEq, Repr

namespace OpError

def message : OpError -> String
  | operandTypes op left right =>
      "operator `" ++ op.symbol ++ "` cannot be applied to `" ++ left.text ++ "` and `" ++
        right.text ++ "`"
  | operandType op operand =>
      "operator `" ++ op.symbol ++ "` cannot be applied to `" ++ operand.text ++ "`"
  | divisionByZero => "division by zero"
  | overflow symbol => "integer overflow in `" ++ symbol ++ "`"

end OpError

/-!
# Whole numbers
-/

def fitted (symbol : String) (n : Int) : Except OpError Int64 :=
  if FitsInt64 n then .ok (Int64.ofInt n) else .error (.overflow symbol)

/-- A power whose exponent is no natural number below `2 ^ 32` is taken in
doubles and cut to 64 bits. -/
def powInt (base exponent : Int64) : Except OpError Int64 :=
  if 0 ≤ exponent.toInt ∧ exponent.toInt < 4294967296 then
    fittedPower base.toInt exponent.toInt.toNat
  else
    .ok (Float.pow base.toFloat exponent.toFloat).toInt64
where
  /-- Only the bases -1, 0 and 1 have small powers with large exponents. -/
  fittedPower (base : Int) (exponent : Nat) : Except OpError Int64 :=
    if exponent < 64 then fitted "^" (wholePow base exponent)
    else if base = 0 ∨ base = 1 then .ok (Int64.ofInt base)
    else if base = -1 then .ok (if exponent % 2 = 0 then 1 else -1)
    else .error (.overflow "^")

def arithmeticInt (op : BinaryOp) (a b : Int64) : Except OpError Int64 :=
  match op with
  | .add => fitted "+" (a.toInt + b.toInt)
  | .sub => fitted "-" (a.toInt - b.toInt)
  | .mul => fitted "*" (a.toInt * b.toInt)
  | .div => if b = 0 then .error .divisionByZero else fitted "/" (a.toInt.tdiv b.toInt)
  | _ => powInt a b

def arithmeticFloat (op : BinaryOp) (a b : Float) : Float :=
  match op with
  | .add => a + b
  | .sub => a - b
  | .mul => a * b
  | .div => a / b
  | _ => Float.pow a b

/-!
# Comparisons
-/

def compareInt (op : BinaryOp) (a b : Int64) : Bool :=
  match op with
  | .less => a.toInt < b.toInt
  | .greater => b.toInt < a.toInt
  | .lessEqual => a.toInt ≤ b.toInt
  | _ => b.toInt ≤ a.toInt

def compareFloat (op : BinaryOp) (a b : Float) : Bool :=
  match op with
  | .less => a < b
  | .greater => b < a
  | .lessEqual => a ≤ b
  | _ => b ≤ a

def logic (op : BinaryOp) (a b : Bool) : Bool :=
  match op with
  | .and => a && b
  | .or => a || b
  | _ => a != b

/-!
# Application
-/

def onNumbers (op : BinaryOp) (l r : Value) (f : Float -> Float -> Value) :
    Except OpError Value :=
  match l.number?, r.number? with
  | some a, some b => .ok (f a b)
  | _, _ => .error (.operandTypes op l.type r.type)

def equalValues (op : BinaryOp) (l r : Value) : Except OpError Value :=
  match l, r with
  | .bool a, .bool b => .ok (.bool ((a == b) == (op == .equal)))
  | .int a, .int b => .ok (.bool ((a == b) == (op == .equal)))
  | l, r => onNumbers op l r fun a b => .bool ((a == b) == (op == .equal))

def compareValues (op : BinaryOp) (l r : Value) : Except OpError Value :=
  match l, r with
  | .int a, .int b => .ok (.bool (compareInt op a b))
  | l, r => onNumbers op l r fun a b => .bool (compareFloat op a b)

def combineBools (op : BinaryOp) (l r : Value) : Except OpError Value :=
  match l, r with
  | .bool a, .bool b => .ok (.bool (logic op a b))
  | l, r => .error (.operandTypes op l.type r.type)

def combineNumbers (op : BinaryOp) (l r : Value) : Except OpError Value :=
  match l, r with
  | .int a, .int b => (arithmeticInt op a b).map .int
  | l, r => onNumbers op l r fun a b => .float (arithmeticFloat op a b)

namespace BinaryOp

def apply (op : BinaryOp) (l r : Value) : Except OpError Value :=
  match op with
  | .and | .or | .xor => combineBools op l r
  | .equal | .notEqual => equalValues op l r
  | .less | .greater | .lessEqual | .greaterEqual => compareValues op l r
  | .add | .sub | .mul | .div | .pow => combineNumbers op l r

end BinaryOp

namespace UnaryOp

def apply (op : UnaryOp) (v : Value) : Except OpError Value :=
  match op, v with
  | .not, .bool b => .ok (.bool !b)
  | .plus, .int n => .ok (.int n)
  | .plus, .float x => .ok (.float x)
  | .neg, .int n => (fitted "-" (-n.toInt)).map .int
  | .neg, .float x => .ok (.float (-x))
  | op, v => .error (.operandType op v.type)

end UnaryOp
end Scriptlet
