import Scriptlet.Evaluation.Machine

/-!
# Execution

Expressions and statements are executed by recursion on the tree.  Calls go
through the parameter `invoke`; calls and rounds of loops are the only steps
that take fuel.
-/

namespace Scriptlet

abbrev EvalOf (ρ host α : Type) : Type :=
  Run RuntimeError (Machine host ρ) α

abbrev Eval (host α : Type) : Type :=
  EvalOf TaskResult host α

abbrev Invoke (host : Type) : Type :=
  FunId -> List Value -> Pos -> Eval host (Option Value)

/-- How a statement ends: the next one follows, or the function returns. -/
inductive Flow where
  | next
  | returned (value : Value)
deriving DecidableEq, Inhabited

def Flow.value? : Flow -> Option Value
  | next => none
  | returned value => some value

namespace Eval

variable {σ ρ : Type}

def failAt {α : Type} (cause : RuntimeCause) (pos : Pos) : EvalOf ρ σ α :=
  Run.fail { cause := cause, pos := pos }

def mismatch {α : Type} (place : TypedPlace) (expected found : ValueType) (pos : Pos) :
    EvalOf ρ σ α :=
  failAt (.typeMismatch { place := place, expected := expected, found := found }) pos

def operator (pos : Pos) (result : Except OpError Value) : EvalOf ρ σ Value :=
  match result with
  | .ok value => pure value
  | .error e => failAt (.ofOpError e) pos

/-!
# Variables
-/

def readVar (p : Program) (id : VarId) (pos : Pos) : EvalOf ρ σ Value := fun m =>
  match m.read p id with
  | some value => .done value m
  | none => failAt (.uninitialized (p.variableAt id).name) pos m

def writeVar (p : Program) (id : VarId) (value : Value) (pos : Pos) : EvalOf ρ σ Unit := fun m =>
  let v := p.variableAt id
  if v.type = value.type then
    match m.store? p id value with
    | some m => .done () m
    | none => failAt (.uninitialized v.name) pos m
  else
    mismatch (.assignment v.name) v.type value.type pos m

def checkArgument (p : Program) (f : FunId) (param : Param) (value : Value) (pos : Pos) :
    EvalOf ρ σ Unit :=
  if param.type.accepts value.type then
    pure ()
  else
    mismatch (.argument (p.variableAt param.var).name (p.function f).name) param.type value.type
      pos

/-!
# Expressions
-/

mutual

def expr (p : Program) (invoke : Invoke σ) : Expr -> Eval σ Value
  | .literal _ value => pure value
  | .const _ id => pure (p.constant id).value
  | .var pos id => readVar p id pos
  | .unary pos op operand => do
      let value ← expr p invoke operand
      operator pos (op.apply value)
  | .binary pos op left right => do
      let l ← expr p invoke left
      let r ← expr p invoke right
      operator pos (op.apply l r)
  | .call pos f args => do
      let values ← arguments p invoke f pos (p.function f).params args
      match ← invoke f values pos with
      | some value => pure value
      | none => mismatch (.result (p.function f).name) .any .none pos

def arguments (p : Program) (invoke : Invoke σ) (f : FunId) (pos : Pos) :
    List Param -> List Expr -> Eval σ (List Value)
  | param :: params, arg :: args => do
      let value ← expr p invoke arg
      checkArgument p f param value pos
      let values ← arguments p invoke f pos params args
      return value :: values
  | _, _ => return []

end

def condition (p : Program) (invoke : Invoke σ) (place : TypedPlace) (cond : Expr) :
    Eval σ Bool := do
  match ← expr p invoke cond with
  | .bool b => return b
  | value => mismatch place .bool value.type cond.pos

/-!
# Tasks

A task runs when it is started, on a machine of its own that shares the host and
the globals.  Its result waits for the await.  The program may not tell this from
a task that runs later, as long as the task and its starter do not touch the same
global and do not both print before the await.  A call whose target has no list of
tasks has not begun when its statement fails.
-/

def asTask (call : Eval σ (Option Value)) : Eval σ TaskResult := fun m =>
  match call m.forTask with
  | .done value task => .done (.ok value) (m.afterTask task)
  | .failed e task => .done (.error e) (m.afterTask task)
  | .unfinished => .unfinished

def variableName (p : Program) (id : VarId) : String :=
  (p.variableAt id).name

def checkTarget (p : Program) (target : VarId) (pos : Pos) : EvalOf ρ σ Unit := fun m =>
  match m.tasksFor p target with
  | some _ => .done () m
  | none => failAt (.unknownAsyncTarget (variableName p target)) pos m

def addTask (p : Program) (task : PendingTask ρ) : EvalOf ρ σ Unit := fun m =>
  match m.updateTasks? p task.target (·.insert (variableName p) task) with
  | some m => .done () m
  | none => failAt (.unknownAsyncTarget (variableName p task.target)) task.pos m

def startCall (p : Program) (invoke : Invoke σ) (pos : Pos) (target : VarId) (f : FunId)
    (values : List Value) : Eval σ Unit := do
  checkTarget p target pos
  let result ← asTask (invoke f values pos)
  addTask p { target := target, function := (p.function f).name, pos := pos, result := result }

def startTask (p : Program) (invoke : Invoke σ) (pos : Pos) (target : VarId) (f : FunId)
    (args : List Expr) : Eval σ Unit := do
  let values ← arguments p invoke f pos (p.function f).params args
  startCall p invoke pos target f values

def takeTask (p : Program) (target : VarId) (pos : Pos) : EvalOf ρ σ (PendingTask ρ) := fun m =>
  match (m.tasksFor p target).bind (·.find? target), m.updateTasks? p target (·.erase target) with
  | some task, some m => .done task m
  | _, _ => failAt (.unknownAsyncTarget (variableName p target)) pos m

def deliver (p : Program) (pos : Pos) (target : VarId) (function : String) :
    TaskResult -> EvalOf ρ σ Unit
  | .error e => failAt (.taskFailed function e.cause e.pos) pos
  | .ok none => mismatch (.taskResult function) (p.variableAt target).type .none pos
  | .ok (some value) => writeVar p target value pos

def awaitTask (p : Program) (pos : Pos) (target : VarId) : Eval σ Unit := do
  let task ← takeTask p target pos
  deliver p pos target task.function task.result

/-!
# Statements
-/

/-- Repeats a body as long as a condition holds, for at most `limit` rounds. -/
def loopWithin (cond : Eval σ Bool) (body : Eval σ Flow) : Nat -> Eval σ Flow
  | 0 => Run.exhausted
  | limit + 1 => do
      if ← cond then
        match ← body with
        | .next => loopWithin cond body limit
        | .returned value => return .returned value
      else
        return .next

mutual

def stmt (p : Program) (fuel : Nat) (invoke : Invoke σ) : Stmt -> Eval σ Flow
  | .constDecl _ _ => return .next
  | .funDecl _ _ => return .next
  | .varDecl _ _ none => return .next
  | .varDecl pos id (some init) => do
      let value ← expr p invoke init
      writeVar p id value pos
      return .next
  | .block _ body => stmts p fuel invoke body
  | .ifThen _ cond _ body => do
      if ← condition p invoke .ifCondition cond then
        stmts p fuel invoke body
      else
        return .next
  | .whileDo _ cond _ body =>
      loopWithin (condition p invoke .whileCondition cond) (stmts p fuel invoke body) fuel
  | .ret _ value => do
      let value ← expr p invoke value
      return .returned value
  | .assign pos target value => do
      let value ← expr p invoke value
      writeVar p target value pos
      return .next
  | .call pos f args => do
      let values ← arguments p invoke f pos (p.function f).params args
      let _ ← invoke f values pos
      return .next
  | .async pos target f args => do
      startTask p invoke pos target f args
      return .next
  | .await pos target => do
      awaitTask p pos target
      return .next

def stmts (p : Program) (fuel : Nat) (invoke : Invoke σ) : List Stmt -> Eval σ Flow
  | [] => return .next
  | s :: rest => do
      match ← stmt p fuel invoke s with
      | .next => stmts p fuel invoke rest
      | .returned value => return .returned value

end

/-!
# Calls
-/

/-- Runs a body in a frame that is dropped however the body ends. -/
def inFrame {α : Type} (p : Program) (frame : Frame) (body : Eval σ α) : Eval σ α := fun m =>
  (body (m.push frame)).mapState (Machine.pop (variableName p))

def callFrame (p : Program) (f : FunId) (args : List Value) : Frame ρ :=
  let slots := List.replicate (p.function f).localCount none
  let fill (slots : List (Option Value)) (entry : Param × Value) : List (Option Value) :=
    slots.set (p.variableAt entry.1.var).slot (some entry.2)
  { owner := f, slots := ((p.function f).params.zip args).foldl fill slots, tasks := .empty }

def native (f : Function) (body : Native σ) (args : List Value) (pos : Pos) :
    EvalOf ρ σ (Option Value) := fun m =>
  match body { pos := pos, args := args } m.host with
  | .done value host => .done value { m with host := host }
  | .failed text host =>
      failAt (.native f.name text) pos { m with host := host }
  | .unfinished => .unfinished

def checkResult (f : Function) (pos : Pos) (result : Option Value) : Eval σ (Option Value) :=
  if yieldType result = f.result then
    pure result
  else
    mismatch (.returned f.name) f.result (yieldType result) pos

end Eval

/-- A program with the bodies of its native functions. -/
structure Loaded (host : Type) where
  program : Program
  natives : List (Native host)

namespace Loaded

variable {σ : Type}

def nativeBody (l : Loaded σ) (f : FunId) : Native σ :=
  l.natives.getD f fun _ => pure none

/-- Calls of functions with the given fuel: one unit for each nested call. -/
def invoke (l : Loaded σ) : Nat -> Invoke σ
  | 0 => fun _ _ _ => Run.exhausted
  | fuel + 1 => fun f args pos => do
      let function := l.program.function f
      match function.body with
      | none =>
          let result ← Eval.native function (l.nativeBody f) args pos
          -- A native function that declares no result may still hand one back.
          if function.result = .none then
            return none
          else
            Eval.checkResult function pos result
      | some block =>
          let flow ← Eval.inFrame l.program (Eval.callFrame l.program f args)
            (Eval.stmts l.program fuel (l.invoke fuel) block.body)
          Eval.checkResult function pos flow.value?

end Loaded
end Scriptlet
