import Scriptlet.Proofs.Evaluation.Coroutines

/-!
# Code that runs by itself

Code whose operations are done one after another, each task running as soon as it is started, is
the evaluator.
-/

namespace Scriptlet

/-!
# Walks under a morphism
-/

/-- A map of runs that respects what they return and how they follow each other. -/
structure Walk.Morphism (m n : Type -> Type) [Monad m] [Monad n] where
  map : {α : Type} -> m α -> n α
  map_pure : forall {α : Type} (a : α), map (pure a) = pure a
  map_bind : forall {α β : Type} (x : m α) (f : α -> m β),
    map (x >>= f) = map x >>= fun a => map (f a)

namespace Walk.Morphism

variable {m n : Type -> Type} [Monad m] [Monad n] (φ : Walk.Morphism m n) (a : Actions m)
  (p : Program)

def actions : Actions n where
  raise := fun e => φ.map (a.raise e)
  readVar := fun id pos => φ.map (a.readVar id pos)
  writeVar := fun id value pos => φ.map (a.writeVar id value pos)
  call := fun f values pos => φ.map (a.call f values pos)
  startTask := fun pos target f values => φ.map (a.startTask pos target f values)
  awaitTask := fun pos target => φ.map (a.awaitTask pos target)
  exhausted := φ.map a.exhausted

theorem map_operator (pos : Pos) (result : Except OpError Value) :
    φ.map (Walk.operator a pos result) = Walk.operator (φ.actions a) pos result := by
  cases result with
  | ok value => exact φ.map_pure value
  | error e => rfl

theorem map_checkArgument (f : FunId) (param : Param) (value : Value) (pos : Pos) :
    φ.map (Walk.checkArgument a p f param value pos) =
      Walk.checkArgument (φ.actions a) p f param value pos := by
  unfold Walk.checkArgument
  split
  · exact φ.map_pure ()
  · rfl

mutual

theorem map_expr : forall e : Expr, φ.map (Walk.expr a p e) = Walk.expr (φ.actions a) p e
  | .literal _ value => φ.map_pure value
  | .const _ _ => φ.map_pure _
  | .var _ _ => rfl
  | .unary pos op operand => by
      simp only [Walk.expr, φ.map_bind, map_expr operand, map_operator]
  | .binary pos op left right => by
      simp only [Walk.expr, φ.map_bind, map_expr left, map_expr right, map_operator]
  | .call pos f args => by
      rw [Walk.expr, Walk.expr, φ.map_bind, map_arguments f pos _ args]
      congr 1
      funext values
      rw [φ.map_bind]
      apply congrArg (φ.map (a.call f values pos) >>= ·)
      funext result
      cases result with
      | some value => exact φ.map_pure value
      | none => rfl

theorem map_arguments (f : FunId) (pos : Pos) : forall (params : List Param) (args : List Expr),
    φ.map (Walk.arguments a p f pos params args) = Walk.arguments (φ.actions a) p f pos params args
  | param :: params, arg :: args => by
      simp only [Walk.arguments, φ.map_bind, map_expr arg, map_checkArgument,
        map_arguments f pos params args, φ.map_pure]
  | [], [] => φ.map_pure []
  | [], _ :: _ => φ.map_pure []
  | _ :: _, [] => φ.map_pure []

end

theorem map_condition (place : TypedPlace) (cond : Expr) :
    φ.map (Walk.condition a p place cond) = Walk.condition (φ.actions a) p place cond := by
  rw [Walk.condition, Walk.condition, φ.map_bind, map_expr]
  congr 1
  funext value
  cases value with
  | bool b => exact φ.map_pure b
  | _ => rfl

theorem map_loopWithin (cond : m Bool) (body : m Unit) (limit : Nat) :
    φ.map (Raising.loopWithin a cond body limit) =
      Raising.loopWithin (φ.actions a) (φ.map cond) (φ.map body) limit := by
  induction limit with
  | zero => rfl
  | succ limit ih =>
      rw [Raising.loopWithin, Raising.loopWithin, φ.map_bind]
      congr 1
      funext holds
      cases holds with
      | false => exact φ.map_pure ()
      | true =>
          rw [← ih]
          exact φ.map_bind body _

theorem map_checkResult (f : Function) (pos : Pos) (result : Option Value) :
    φ.map (Walk.checkResult a f pos result) = Walk.checkResult (φ.actions a) f pos result := by
  unfold Walk.checkResult
  split
  · exact φ.map_pure result
  · rfl

theorem map_checkArguments (f : FunId) (pos : Pos) : forall (params : List Param)
    (values : List Value), φ.map (Walk.checkArguments a p f pos params values) =
      Walk.checkArguments (φ.actions a) p f pos params values
  | param :: params, value :: values => by
      simp only [Walk.checkArguments, φ.map_bind, map_checkArgument,
        map_checkArguments f pos params values]
  | [], [] => φ.map_pure ()
  | [], _ :: _ => φ.map_pure ()
  | _ :: _, [] => φ.map_pure ()

variable (leave : Value -> m Unit) (fuel : Nat)

mutual

theorem map_stmt : forall s : Stmt, φ.map (Raising.stmt p a leave fuel s) =
    Raising.stmt p (φ.actions a) (fun value => φ.map (leave value)) fuel s
  | .constDecl _ _ => φ.map_pure ()
  | .funDecl _ _ => φ.map_pure ()
  | .varDecl _ _ none => φ.map_pure ()
  | .varDecl pos id (some init) => by
      rw [Raising.stmt, Raising.stmt, φ.map_bind, map_expr]
      rfl
  | .block _ body => map_stmts body
  | .ifThen _ cond _ body => by
      rw [Raising.stmt, Raising.stmt, φ.map_bind, map_condition, ← map_stmts body]
      congr 1
      funext holds
      cases holds with
      | false => exact φ.map_pure ()
      | true => rfl
  | .whileDo _ cond _ body => by
      rw [Raising.stmt, Raising.stmt, ← map_stmts body, ← map_condition]
      exact φ.map_loopWithin a _ _ fuel
  | .ret _ value => by
      rw [Raising.stmt, Raising.stmt, φ.map_bind, map_expr]
  | .assign pos target value => by
      rw [Raising.stmt, Raising.stmt, φ.map_bind, map_expr]
      rfl
  | .call pos f args => by
      simp only [Raising.stmt, φ.map_bind, map_arguments, φ.map_pure]
      rfl
  | .async pos target f args => by
      rw [Raising.stmt, Raising.stmt, φ.map_bind, map_arguments]
      rfl
  | .await pos target => rfl

theorem map_stmts : forall body : List Stmt, φ.map (Raising.stmts p a leave fuel body) =
    Raising.stmts p (φ.actions a) (fun value => φ.map (leave value)) fuel body
  | [] => φ.map_pure ()
  | s :: rest => by
      simp only [Raising.stmts, φ.map_bind, map_stmt s, map_stmts rest]

end
end Walk.Morphism

/-!
# Operations one after another
-/

namespace Coroutine

variable {τ α β : Type} (perform : (op : Operation) -> Run Signal τ op.Answer)

def runWith : Coroutine α -> Run Signal τ α
  | done a => Run.pure a
  | raised s => Run.fail s
  | unfinished => Run.exhausted
  | ask op next => fun t =>
      match perform op t with
      | .done answer t => runWith (next (.ok answer)) t
      | .failed s t => runWith (next (.error s)) t
      | .unfinished => .unfinished

theorem runWith_ask (op : Operation) (next : Except Signal op.Answer -> Coroutine α) (t : τ) :
    runWith perform (ask op next) t =
      match perform op t with
      | .done answer t => runWith perform (next (.ok answer)) t
      | .failed s t => runWith perform (next (.error s)) t
      | .unfinished => .unfinished := by
  rw [runWith]

theorem runWith_bind (x : Coroutine α) (f : α -> Coroutine β) :
    runWith perform (x >>= f) = runWith perform x >>= fun a => runWith perform (f a) := by
  induction x with
  | done a => rfl
  | raised s => rfl
  | unfinished => rfl
  | ask op next ih =>
      funext t
      rw [ask_bind, runWith_ask, Run.bind_apply, runWith_ask]
      cases perform op t with
      | done answer t => exact congrFun (ih _) t
      | failed s t => exact congrFun (ih _) t
      | unfinished => rfl

def runs : Walk.Morphism Coroutine (Run Signal τ) where
  map := runWith perform
  map_pure := fun _ => rfl
  map_bind := runWith_bind perform

theorem runWith_perform (op : Operation) : runWith perform (Coroutine.perform op) = perform op := by
  funext t
  rw [Coroutine.perform, runWith_ask]
  cases perform op t <;> rfl

end Coroutine

def Operation.atOnce {σ : Type} (l : Loaded σ) : (op : Operation) -> Raising σ op.Answer
  | .read id pos => Raising.lift (Eval.readVar l.program id pos)
  | .write id value pos => Raising.lift (Eval.writeVar l.program id value pos)
  | .native f values pos =>
      Raising.lift (Eval.native (l.program.function f) (l.nativeBody f) values pos)
  | .push f values => Run.modify (Machine.push · (Eval.callFrame l.program f values))
  | .pop => Run.modify (Machine.pop (Eval.variableName l.program))
  | .start fuel pos target f values =>
      Raising.startTask l.program (l.raisingInvoke fuel f values pos) pos target f
  | .await pos target => Raising.lift (Eval.awaitTask l.program pos target)
  | .takeLeaks => Raising.lift (Loaded.takeLeaks l.program)

namespace Coroutine

variable {σ α : Type} (l : Loaded σ)

theorem runWith_catchReturn (x : Coroutine Unit) :
    runWith (Operation.atOnce l) x.catchReturn =
      Raising.catchReturn (runWith (Operation.atOnce l) x) := by
  induction x with
  | done a => rfl
  | raised s => cases s <;> rfl
  | unfinished => rfl
  | ask op next ih =>
      funext m
      rw [catchReturn, runWith_ask, Raising.catchReturn, runWith_ask]
      cases op.atOnce l m with
      | done answer m => exact congrFun (ih _) m
      | failed s m => exact congrFun (ih _) m
      | unfinished => rfl

theorem runWith_leaveFrame (x : Coroutine α) (m : Machine σ) :
    runWith (Operation.atOnce l) x.leaveFrame m =
      (runWith (Operation.atOnce l) x m).mapState (Machine.pop (Eval.variableName l.program)) := by
  induction x generalizing m with
  | done a => rfl
  | raised s => rfl
  | unfinished => rfl
  | ask op next ih =>
      rw [leaveFrame, runWith_ask, runWith_ask]
      cases op.atOnce l m with
      | done answer m => exact ih _ m
      | failed s m => exact ih _ m
      | unfinished => rfl

theorem runWith_inFrame (f : FunId) (values : List Value) (body : Coroutine α) :
    runWith (Operation.atOnce l) (inFrame f values body) =
      Raising.inFrame l.program (Eval.callFrame l.program f values)
        (runWith (Operation.atOnce l) body) :=
  funext fun _ => runWith_leaveFrame l body _

end Coroutine

namespace Raising

variable {σ : Type} (l : Loaded σ) (fuel : Nat)

open Coroutine

theorem lift_checkResult (invoke : FunId -> List Value -> Pos -> Raising σ (Option Value))
    (f : Function) (pos : Pos) (result : Option Value) :
    Walk.checkResult (actions l.program invoke) f pos result =
      lift (Eval.checkResult f pos result) := by
  unfold Walk.checkResult Eval.checkResult
  split <;> rfl

theorem lift_checkArguments (invoke : FunId -> List Value -> Pos -> Raising σ (Option Value))
    (f : FunId) (pos : Pos) : forall (params : List Param) (values : List Value),
    Walk.checkArguments (actions l.program invoke) l.program f pos params values =
      lift (Loaded.checkArguments l.program f pos params values)
  | param :: params, value :: values => by
      rw [Walk.checkArguments, Loaded.checkArguments, lift_bind,
        lift_checkArguments invoke f pos params values]
      unfold Walk.checkArgument Eval.checkArgument
      split <;> rfl
  | [], [] => rfl
  | [], _ :: _ => rfl
  | _ :: _, [] => rfl

theorem actions_atOnce
    (h : forall f values pos, runWith (Operation.atOnce l) (l.program.callCode fuel f values pos) =
      l.raisingInvoke fuel f values pos) :
    (runs (Operation.atOnce l)).actions (l.program.codeActions fuel) =
      actions l.program (l.raisingInvoke fuel) := by
  have hcall : (fun f values pos =>
      runWith (Operation.atOnce l) (l.program.callCode fuel f values pos)) =
        l.raisingInvoke fuel := by
    funext f values pos
    exact h f values pos
  have hop := runWith_perform (Operation.atOnce l)
  rw [Walk.Morphism.actions, actions, Actions.mk.injEq]
  exact ⟨rfl, funext₂ fun id pos => hop (.read id pos),
    funext₃ fun id value pos => hop (.write id value pos), hcall,
    funext₃ fun pos target f => funext fun values => hop (.start fuel pos target f values),
    funext₂ fun pos target => hop (.await pos target), rfl⟩

theorem stmts_atOnce
    (h : forall f values pos, runWith (Operation.atOnce l) (l.program.callCode fuel f values pos) =
      l.raisingInvoke fuel f values pos) (body : List Stmt) :
    runWith (Operation.atOnce l)
        (stmts l.program (l.program.codeActions fuel) Coroutine.leave fuel body) =
      stmts l.program (actions l.program (l.raisingInvoke fuel)) leave fuel body := by
  have hstmts := (runs (Operation.atOnce l)).map_stmts (l.program.codeActions fuel) l.program
    Coroutine.leave fuel body
  rw [actions_atOnce l fuel h] at hstmts
  exact hstmts

theorem runWith_callCode (f : FunId) (values : List Value) (pos : Pos) :
    runWith (Operation.atOnce l) (l.program.callCode fuel f values pos) =
      l.raisingInvoke fuel f values pos := by
  -- By induction on the fuel: the calls of a body are those of the evaluator already.
  induction fuel generalizing f values pos with
  | zero => rfl
  | succ fuel ih =>
      have hcheck : forall result : Option Value, runWith (Operation.atOnce l)
          (Walk.checkResult (l.program.codeActions fuel) (l.program.function f) pos result) =
            lift (Eval.checkResult (l.program.function f) pos result) := by
        intro result
        have hmap := (runs (Operation.atOnce l)).map_checkResult (l.program.codeActions fuel)
          (l.program.function f) pos result
        rw [actions_atOnce l fuel ih, lift_checkResult] at hmap
        exact hmap
      cases hbody : (l.program.function f).body with
      | none =>
          simp only [Program.callCode, Loaded.raisingInvoke, hbody]
          rw [runWith_bind, runWith_perform]
          apply congrArg (Operation.atOnce l (.native f values pos) >>= ·)
          funext result
          split
          · rfl
          · exact hcheck result
      | some block =>
          simp only [Program.callCode, Loaded.raisingInvoke, hbody]
          rw [runWith_bind, runWith_catchReturn, runWith_inFrame, stmts_atOnce l fuel ih]
          simp only [hcheck]

/-- A run of the code is a run of the evaluator. -/
theorem runWith_runCode :
    runWith (Operation.atOnce l) (l.program.runCode fuel) = lift (l.run fuel) := by
  rw [← raisingRun_eq, Program.runCode, runWith_bind, runWith_catchReturn,
    stmts_atOnce l fuel (runWith_callCode l fuel)]
  apply congrArg (catchReturn _ >>= ·)
  funext result
  rw [runWith_bind, runWith_perform]
  rfl

theorem runWith_callFunctionCode (f : FunId) (args : List Value) :
    runWith (Operation.atOnce l) (l.program.callFunctionCode fuel f args) =
      lift (l.callFunction fuel f args) := by
  rw [← raisingCallFunction_eq, Program.callFunctionCode, Loaded.raisingCallFunction]
  split
  · rfl
  · have hmap := (runs (Operation.atOnce l)).map_checkArguments (l.program.codeActions fuel)
      l.program f (l.program.function f).entryPos (l.program.function f).params args
    rw [actions_atOnce l fuel (runWith_callCode l fuel), lift_checkArguments] at hmap
    rw [runWith_bind]
    congr 1
    funext _
    exact runWith_callCode l fuel f args _

end Raising
end Scriptlet
