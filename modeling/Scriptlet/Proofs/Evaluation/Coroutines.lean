import Scriptlet.Proofs.Evaluation.AsyncBook
import Scriptlet.Proofs.Evaluation.RaisedReturns

/-!
# Evaluators as coroutines

The work of an evaluator, cut at everything that is done to a state: reading and storing,
calls of natives, entering and leaving frames, starting and awaiting tasks.  Between two such
operations other evaluators may go on.  The coroutine is told what the operation has answered
or raised, and knows how to go on from there.

It walks the same trees as the evaluator and raises returns on their way out of a body.
-/

namespace Scriptlet

/-- What is done to the state of an evaluator in one go. -/
inductive Operation where
  | read (id : VarId) (pos : Pos)
  | write (id : VarId) (value : Value) (pos : Pos)
  | native (f : FunId) (values : List Value) (pos : Pos)
  | push (f : FunId) (values : List Value)
  | pop
  /-- Starts a task whose call has the given fuel. -/
  | start (fuel : Nat) (pos : Pos) (target : VarId) (f : FunId) (values : List Value)
  | await (pos : Pos) (target : VarId)
  | takeLeaks

abbrev Operation.Answer : Operation -> Type
  | .read _ _ => Value
  | .native _ _ _ => Option Value
  | .takeLeaks => List LeakedTask
  | _ => Unit

inductive Coroutine (α : Type) where
  | done (a : α)
  | raised (s : Signal)
  /-- Too little fuel was given to go on. -/
  | unfinished
  | ask (op : Operation) (next : Except Signal op.Answer -> Coroutine α)

namespace Coroutine

variable {α β : Type}

def bind : Coroutine α -> (α -> Coroutine β) -> Coroutine β
  | done a, f => f a
  | raised s, _ => raised s
  | unfinished, _ => unfinished
  | ask op next, f => ask op fun answer => (next answer).bind f

instance : Monad Coroutine where
  pure := done
  bind := bind

@[simp] theorem done_bind (a : α) (f : α -> Coroutine β) : done a >>= f = f a :=
  rfl

@[simp] theorem raised_bind (s : Signal) (f : α -> Coroutine β) : raised s >>= f = raised s :=
  rfl

@[simp] theorem unfinished_bind (f : α -> Coroutine β) : unfinished >>= f = unfinished :=
  rfl

@[simp] theorem ask_bind (op : Operation) (next : Except Signal op.Answer -> Coroutine α)
    (f : α -> Coroutine β) : ask op next >>= f = ask op fun answer => next answer >>= f :=
  rfl

instance : LawfulMonad Coroutine :=
  .mk' _
    (by
      intro α x
      show x >>= done = x
      induction x with
      | ask op next ih => exact congrArg (ask op) (funext ih)
      | _ => rfl)
    (fun _ _ => rfl)
    (by
      intro α β γ x f g
      induction x with
      | ask op next ih => exact congrArg (ask op) (funext ih)
      | _ => rfl)

/-!
# Operations and frames
-/

def perform (op : Operation) : Coroutine op.Answer :=
  ask op fun
    | .ok a => done a
    | .error s => raised s

def leaveFrame : Coroutine α -> Coroutine α
  | done a => perform .pop >>= fun _ => done a
  | raised s => perform .pop >>= fun _ => raised s
  | unfinished => unfinished
  | ask op next => ask op fun answer => (next answer).leaveFrame

def inFrame (f : FunId) (values : List Value) (body : Coroutine α) : Coroutine α := do
  perform (.push f values)
  body.leaveFrame

/-- What a body yields that was run to its end or left by a return. -/
def catchReturn : Coroutine Unit -> Coroutine (Option Value)
  | done _ => done none
  | raised (.returned value) => done (some value)
  | raised s => raised s
  | unfinished => unfinished
  | ask op next => ask op fun answer => (next answer).catchReturn

def leave (value : Value) : Coroutine Unit :=
  raised (.returned value)

def actions (fuel : Nat) (invoke : FunId -> List Value -> Pos -> Coroutine (Option Value)) :
    Actions Coroutine where
  raise := fun e => raised (.error e)
  readVar := fun id pos => perform (.read id pos)
  writeVar := fun id value pos => perform (.write id value pos)
  call := invoke
  startTask := fun pos target f values => perform (.start fuel pos target f values)
  awaitTask := fun pos target => perform (.await pos target)
  exhausted := unfinished

end Coroutine

/-!
# Programs as coroutines
-/

namespace Program

variable (p : Program)

def callCode : Nat -> FunId -> List Value -> Pos -> Coroutine (Option Value)
  | 0 => fun _ _ _ => .unfinished
  | fuel + 1 => fun f args pos => do
      let function := p.function f
      let acts := Coroutine.actions fuel (callCode fuel)
      match function.body with
      | none =>
          let result ← Coroutine.perform (.native f args pos)
          if function.result = .none then
            return none
          else
            Walk.checkResult acts function pos result
      | some block =>
          let result ← Coroutine.catchReturn
            (Coroutine.inFrame f args (Raising.stmts p acts Coroutine.leave fuel block.body))
          Walk.checkResult acts function pos result

abbrev codeActions (fuel : Nat) : Actions Coroutine :=
  Coroutine.actions fuel (p.callCode fuel)

def runCode (fuel : Nat) : Coroutine RunReport := do
  let result ← Coroutine.catchReturn
    (Raising.stmts p (p.codeActions fuel) Coroutine.leave fuel p.root)
  let leaked ← Coroutine.perform .takeLeaks
  return { result := result, leaked := leaked }

def callFunctionCode (fuel : Nat) (f : FunId) (args : List Value) : Coroutine (Option Value) := do
  let function := p.function f
  let acts := p.codeActions fuel
  let pos := function.entryPos
  if args.length ≠ function.params.length then
    Walk.failAt acts (.arityMismatch function.name function.params.length args.length) pos
  else
    Walk.checkArguments acts p f pos function.params args
    p.callCode fuel f args pos

end Program
end Scriptlet
