import Scriptlet.Folding.Expression

/-!
# Types of trees

The type of the value of an expression depends on the declarations that the expression
names and on no value.  An operator or a call whose operands or arguments have other types
than it takes has no type.
-/

namespace Scriptlet

/-!
# Operators
-/

def ValueType.isNumber : ValueType -> Bool
  | .int => true
  | .float => true
  | _ => false

def UnaryOp.resultType? (op : UnaryOp) (t : ValueType) : Option ValueType :=
  match op with
  | .not => if t = .bool then some .bool else none
  | .plus | .neg => if t.isNumber then some t else none

def BinaryOp.resultType? (op : BinaryOp) (l r : ValueType) : Option ValueType :=
  match op with
  | .and | .or | .xor => if l = .bool ∧ r = .bool then some .bool else none
  | .equal | .notEqual =>
      if l = .bool ∧ r = .bool ∨ l.isNumber ∧ r.isNumber then some .bool else none
  | .less | .greater | .lessEqual | .greaterEqual =>
      if l.isNumber ∧ r.isNumber then some .bool else none
  | .add | .sub | .mul | .div | .pow =>
      if l = .int ∧ r = .int then some .int
      else if l.isNumber ∧ r.isNumber then some .float
      else none

/-- A value has the type, and an error is left to the run unless there is no type. -/
def FollowsType (t : Option ValueType) : Except OpError Value -> Prop
  | .ok v => t = some v.type
  | .error e => Fold.isLeftToRun e = true ∨ t = none

theorem followsType_map_int {result : Except OpError Int64}
    (h : forall e, result = .error e -> Fold.isLeftToRun e = true) :
    FollowsType (some .int) (result.map .int) := by
  cases result with
  | ok n => rfl
  | error e => exact .inl (h e rfl)

theorem isLeftToRun_fitted {symbol : String} {n : Int} {e : OpError}
    (h : fitted symbol n = .error e) : Fold.isLeftToRun e = true := by
  unfold fitted at h
  split at h
  · cases h
  · cases h
    rfl

theorem isLeftToRun_powInt {a b : Int64} {e : OpError} (h : powInt a b = .error e) :
    Fold.isLeftToRun e = true := by
  unfold powInt powInt.fittedPower at h
  repeat' split at h
  all_goals first
    | exact isLeftToRun_fitted h
    | (cases h; done)
    | (cases h; rfl)

theorem isLeftToRun_arithmeticInt {op : BinaryOp} {a b : Int64} {e : OpError}
    (h : arithmeticInt op a b = .error e) : Fold.isLeftToRun e = true := by
  cases op with
  | add => exact isLeftToRun_fitted h
  | sub => exact isLeftToRun_fitted h
  | mul => exact isLeftToRun_fitted h
  | div =>
      simp only [arithmeticInt] at h
      split at h
      · cases h
        rfl
      · exact isLeftToRun_fitted h
  | _ => exact isLeftToRun_powInt h

theorem UnaryOp.followsType_apply (op : UnaryOp) (v : Value) :
    FollowsType (op.resultType? v.type) (op.apply v) := by
  cases op with
  | not => cases v <;> first | rfl | exact .inr rfl
  | plus => cases v <;> first | rfl | exact .inr rfl
  | neg =>
      cases v with
      | bool b => exact .inr rfl
      | int n => exact followsType_map_int fun _ => isLeftToRun_fitted
      | float x => rfl

theorem BinaryOp.followsType_apply (op : BinaryOp) (l r : Value) :
    FollowsType (op.resultType? l.type r.type) (op.apply l r) := by
  cases l with
  | int a =>
      cases r with
      | int b =>
          cases op with
          | add | sub | mul | div | pow =>
              exact followsType_map_int fun _ => isLeftToRun_arithmeticInt
          | _ => first | rfl | exact .inr rfl
      | _ => cases op <;> first | rfl | exact .inr rfl
  | _ => cases r <;> cases op <;> first | rfl | exact .inr rfl

/-!
# Expressions
-/

mutual

def Expr.type? (p : Program) : Expr -> Option ValueType
  | .literal _ value => some value.type
  | .const _ id => some (p.constant id).value.type
  | .var _ id => some (p.variableAt id).type
  | .unary _ op operand => (operand.type? p).bind op.resultType?
  | .binary _ op left right =>
      (left.type? p).bind fun l => (right.type? p).bind fun r => op.resultType? l r
  | .call _ f args =>
      if Expr.argumentsFit p (p.function f).params args then some (p.function f).result else none

def Expr.argumentsFit (p : Program) : List Param -> List Expr -> Bool
  | param :: params, arg :: args =>
      (arg.type? p).any param.type.accepts && Expr.argumentsFit p params args
  | _, _ => true

end

theorem Expr.argumentsFit_cons {p : Program} {param : Param} {params : List Param} {arg : Expr}
    {args : List Expr} {t : ValueType} (ht : arg.type? p = some t) :
    Expr.argumentsFit p (param :: params) (arg :: args) =
      (param.type.accepts t && Expr.argumentsFit p params args) := by
  rw [Expr.argumentsFit, ht]
  rfl

/-!
# Statements
-/

/-- The types that fit where executing the statement checks a value itself: that of a
variable, that of a condition, and those of the parameters of a function. -/
def Stmt.Checks (p : Program) : Stmt -> Prop
  | .varDecl _ id (some init) => init.type? p = some (p.variableAt id).type
  | .assign _ id value => value.type? p = some (p.variableAt id).type
  | .ifThen _ cond _ _ => cond.type? p = some .bool
  | .whileDo _ cond _ _ => cond.type? p = some .bool
  | .call _ f args => Expr.argumentsFit p (p.function f).params args = true
  | _ => True

end Scriptlet
