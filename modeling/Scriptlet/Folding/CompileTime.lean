import Scriptlet.Folding.Valuation

/-!
# Calls at compile time

A function is run before the program is, on what is known of its arguments and
of the globals.  The run gives up as soon as something is not known, an operator
fails, a task is met, or the budget of calls and loop rounds is spent.

A nested call or a further round spends from the budget, so no more of them can
be open than the budget that a run starts with.  The bounds of the recursion are
that budget: a bound of zero is met only when the budget is spent.
-/

namespace Scriptlet

structure ConstFrame where
  owner : FunId
  values : Valuation

structure ConstState where
  globals : Valuation
  /-- Active calls, innermost first. -/
  frames : List ConstFrame
  /-- Calls and rounds that may still be entered. -/
  budget : Nat

abbrev ConstEval (α : Type) : Type :=
  StateT ConstState Option α

inductive ConstFlow where
  | next
  | returned (value : Value)
deriving DecidableEq

namespace ConstEval

def giveUp {α : Type} : ConstEval α :=
  fun _ => none

def ofOption {α : Type} (x : Option α) : ConstEval α :=
  fun s => x.map fun a => (a, s)

def ofOperator (result : Except OpError Value) : ConstEval Value :=
  ofOption result.toOption

def spend : ConstEval Unit := fun s =>
  match s.budget with
  | 0 => none
  | budget + 1 => some ((), { s with budget := budget })

/-!
# Variables
-/

def frameOf (s : ConstState) (owner : FunId) : Option ConstFrame :=
  s.frames.find? (·.owner == owner)

def updateFrame (owner : FunId) (f : Valuation -> Valuation) :
    List ConstFrame -> Option (List ConstFrame)
  | [] => none
  | frame :: rest =>
      if frame.owner = owner then some ({ frame with values := f frame.values } :: rest)
      else (updateFrame owner f rest).map (frame :: ·)

def readVar (p : Program) (id : VarId) : ConstEval Value := fun s =>
  let value :=
    match (p.variableAt id).owner with
    | none => s.globals.get? id
    | some owner => (frameOf s owner).bind (·.values.get? id)
  value.map fun v => (v, s)

def writeVar (p : Program) (id : VarId) (value : Value) : ConstEval Unit := fun s =>
  if (p.variableAt id).type = value.type then
    match (p.variableAt id).owner with
    | none => some ((), { s with globals := s.globals.set id value })
    | some owner =>
        (updateFrame owner (·.set id value) s.frames).map fun frames =>
          ((), { s with frames := frames })
  else
    none

/-!
# Expressions
-/

abbrev Invoke : Type :=
  FunId -> List Value -> ConstEval (Option Value)

mutual

def expr (p : Program) (invoke : Invoke) : Expr -> ConstEval Value
  | .literal _ value => pure value
  | .const _ id => pure (p.constant id).value
  | .var _ id => readVar p id
  | .unary _ op operand => do
      let value ← expr p invoke operand
      ofOperator (op.apply value)
  | .binary _ op left right => do
      let l ← expr p invoke left
      let r ← expr p invoke right
      ofOperator (op.apply l r)
  | .call _ f args => do
      if (p.function f).isNative then
        giveUp
      else
        let values ← arguments p invoke (p.function f).params args
        ofOption (← invoke f values)

def arguments (p : Program) (invoke : Invoke) : List Param -> List Expr -> ConstEval (List Value)
  | param :: params, arg :: args => do
      let value ← expr p invoke arg
      if param.type.accepts value.type then
        return value :: (← arguments p invoke params args)
      else
        giveUp
  | _, _ => return []

end

def condition (p : Program) (invoke : Invoke) (cond : Expr) : ConstEval Bool := do
  let value ← expr p invoke cond
  ofOption value.truth?

/-- A call statement.  What a native function without a result does to the host
is left to the call of the run. -/
def callStmt (p : Program) (invoke : Invoke) (f : FunId) (args : List Expr) :
    ConstEval ConstFlow := do
  let function := p.function f
  if function.isNative then
    if function.result = .none then return .next else giveUp
  else
    let values ← arguments p invoke function.params args
    let _ ← invoke f values
    return .next

/-!
# Statements
-/

def loopWithin (cond : ConstEval Bool) (body : ConstEval ConstFlow) : Nat -> ConstEval ConstFlow
  | 0 => do
      if ← cond then giveUp else return .next
  | limit + 1 => do
      if ← cond then
        spend
        match ← body with
        | .next => loopWithin cond body limit
        | .returned value => return .returned value
      else
        return .next

mutual

def stmt (p : Program) (limit : Nat) (invoke : Invoke) : Stmt -> ConstEval ConstFlow
  | .constDecl _ _ => return .next
  | .funDecl _ _ => return .next
  | .varDecl _ _ none => return .next
  | .varDecl _ id (some init) => do
      let value ← expr p invoke init
      writeVar p id value
      return .next
  | .block _ body => stmts p limit invoke body
  | .ifThen _ cond _ body => do
      if ← condition p invoke cond then stmts p limit invoke body else return .next
  | .whileDo _ cond _ body =>
      loopWithin (condition p invoke cond) (stmts p limit invoke body) limit
  | .ret _ value => do
      let value ← expr p invoke value
      return .returned value
  | .assign _ target value => do
      let value ← expr p invoke value
      writeVar p target value
      return .next
  | .call _ f args => callStmt p invoke f args
  | .async _ _ _ _ => giveUp
  | .await _ _ => giveUp

def stmts (p : Program) (limit : Nat) (invoke : Invoke) : List Stmt -> ConstEval ConstFlow
  | [] => return .next
  | s :: rest => do
      match ← stmt p limit invoke s with
      | .next => stmts p limit invoke rest
      | .returned value => return .returned value

end

/-!
# Calls
-/

def inFrame {α : Type} (frame : ConstFrame) (body : ConstEval α) : ConstEval α := do
  modify fun s => { s with frames := frame :: s.frames }
  let a ← body
  modify fun s => { s with frames := s.frames.tail }
  return a

def yielded? (result : ValueType) : ConstFlow -> Option (Option Value)
  | .next => if result = .none then some none else none
  | .returned value => if value.type = result then some (some value) else none

def invokeWithin (p : Program) : Nat -> Invoke
  | 0 => fun _ _ => giveUp
  | depth + 1 => fun f args => do
      spend
      let function := p.function f
      match function.body with
      | none => giveUp
      | some block =>
          let values := Valuation.ofList ((function.params.map (·.var)).zip args)
          let flow ← inFrame { owner := f, values := values }
            (stmts p depth (invokeWithin p depth) block.body)
          ofOption (yielded? function.result flow)

end ConstEval

/-- Runs a function at compile time.  The answer is what the call yields, with the
globals that it leaves. -/
def evalCall (p : Program) (quota : Nat) (globals : Valuation) (f : FunId) (args : List Value) :
    Option (Option Value × Valuation) :=
  let start : ConstState := { globals := globals, frames := [], budget := quota }
  (ConstEval.invokeWithin p quota f args start).map fun (value, s) => (value, s.globals)

end Scriptlet
