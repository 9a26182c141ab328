import Scriptlet.Evaluation.Session
import Scriptlet.Proofs.Evaluation.Walk

/-!
# Returns that are raised

An evaluator in which a `return` is raised like an error.  It unwinds the blocks, branches
and loops around it, and the call that it leaves catches it behind its frame, as the run of
the top level does.  Nothing else looks for it: expressions and arguments hand on whatever is
raised in them, and an await would wrap whatever was raised in the call of its task.

No return gets past the place that catches it.  Whatever is run here does what the plain
evaluator does, and what it raises in the end is an error of that.
-/

namespace Scriptlet

/-- What is raised: an error, or a `return` on its way out of a body. -/
inductive Signal where
  | error (e : RuntimeError)
  | returned (value : Value)
  /-- A return that got out of the call of a task, to be the cause of a failed await. -/
  | strayed (value : Value)

abbrev Raising (host α : Type) : Type :=
  Run Signal (Machine host) α

/-!
# The raising evaluator
-/

namespace Raising

variable {σ α : Type}

def lift {τ : Type} (x : Run RuntimeError τ α) : Run Signal τ α := fun t =>
  match x t with
  | .done a t => .done a t
  | .failed e t => .failed (.error e) t
  | .unfinished => .unfinished

/-- A task hands its value or its error to the await.  A return is neither: where one gets
out of the call of a task, it is raised as such at once, and caught nowhere. -/
def asTask (call : Raising σ (Option Value)) : Raising σ TaskResult := fun m =>
  match call m.forTask with
  | .done value task => .done (.ok value) (m.afterTask task)
  | .failed (.error e) task => .done (.error e) (m.afterTask task)
  | .failed (.returned value) task => .failed (.strayed value) (m.afterTask task)
  | .failed (.strayed value) task => .failed (.strayed value) (m.afterTask task)
  | .unfinished => .unfinished

def inFrame (p : Program) (frame : Frame) (body : Raising σ α) : Raising σ α := fun m =>
  (body (m.push frame)).mapState (Machine.pop (Eval.variableName p))

/-- What a body yields that was run to its end or left by a return. -/
def catchReturn (body : Raising σ Unit) : Raising σ (Option Value) := fun m =>
  match body m with
  | .done () m => .done none m
  | .failed (.returned value) m => .done (some value) m
  | .failed s m => .failed s m
  | .unfinished => .unfinished

variable (p : Program)

def startTask (call : Raising σ (Option Value)) (pos : Pos) (target : VarId) (f : FunId) :
    Raising σ Unit := do
  lift (Eval.checkTarget p target pos)
  let result ← asTask call
  lift (Eval.addTask p
    { target := target, function := (p.function f).name, pos := pos, result := result })

def actions (invoke : FunId -> List Value -> Pos -> Raising σ (Option Value)) :
    Actions (Run Signal (Machine σ)) where
  raise := fun e => Run.fail (.error e)
  readVar := fun id pos => lift (Eval.readVar p id pos)
  writeVar := fun id value pos => lift (Eval.writeVar p id value pos)
  call := invoke
  startTask := fun pos target f values => startTask p (invoke f values pos) pos target f
  awaitTask := fun pos target => lift (Eval.awaitTask p pos target)
  exhausted := Run.exhausted

section Statements

variable {m : Type -> Type} [Monad m] (acts : Actions m) (leave : Value -> m Unit) (fuel : Nat)

def loopWithin (cond : m Bool) (body : m Unit) : Nat -> m Unit
  | 0 => acts.exhausted
  | limit + 1 => do
      if ← cond then
        body
        loopWithin cond body limit
      else
        return ()

mutual

def stmt : Stmt -> m Unit
  | .constDecl _ _ => return ()
  | .funDecl _ _ => return ()
  | .varDecl _ _ none => return ()
  | .varDecl pos id (some init) => do
      let value ← Walk.expr acts p init
      acts.writeVar id value pos
  | .block _ body => stmts body
  | .ifThen _ cond _ body => do
      if ← Walk.condition acts p .ifCondition cond then
        stmts body
      else
        return ()
  | .whileDo _ cond _ body =>
      loopWithin acts (Walk.condition acts p .whileCondition cond) (stmts body) fuel
  | .ret _ value => do
      let value ← Walk.expr acts p value
      leave value
  | .assign pos target value => do
      let value ← Walk.expr acts p value
      acts.writeVar target value pos
  | .call pos f args => do
      let values ← Walk.arguments acts p f pos (p.function f).params args
      let _ ← acts.call f values pos
  | .async pos target f args => do
      let values ← Walk.arguments acts p f pos (p.function f).params args
      acts.startTask pos target f values
  | .await pos target => acts.awaitTask pos target

def stmts : List Stmt -> m Unit
  | [] => return ()
  | s :: rest => do
      stmt s
      stmts rest

end
end Statements

def leave (value : Value) : Raising σ Unit :=
  Run.fail (.returned value)

end Raising

namespace Loaded

variable {σ : Type} (l : Loaded σ)

def raisingInvoke : Nat -> FunId -> List Value -> Pos -> Raising σ (Option Value)
  | 0 => fun _ _ _ => Run.exhausted
  | fuel + 1 => fun f args pos => do
      let function := l.program.function f
      match function.body with
      | none =>
          let result ← Raising.lift (Eval.native function (l.nativeBody f) args pos)
          if function.result = .none then
            return none
          else
            Raising.lift (Eval.checkResult function pos result)
      | some block =>
          let acts := Raising.actions l.program (raisingInvoke fuel)
          let result ← Raising.catchReturn
            (Raising.inFrame l.program (Eval.callFrame l.program f args)
              (Raising.stmts l.program acts Raising.leave fuel block.body))
          Raising.lift (Eval.checkResult function pos result)

def raisingRun (fuel : Nat) : Raising σ RunReport := do
  let acts := Raising.actions l.program (l.raisingInvoke fuel)
  let result ← Raising.catchReturn (Raising.stmts l.program acts Raising.leave fuel l.program.root)
  let leaked ← Raising.lift (takeLeaks l.program)
  return { result := result, leaked := leaked }

def raisingCallFunction (fuel : Nat) (f : FunId) (args : List Value) :
    Raising σ (Option Value) := do
  let function := l.program.function f
  let pos := function.entryPos
  if args.length ≠ function.params.length then
    Raising.lift
      (Eval.failAt (.arityMismatch function.name function.params.length args.length) pos)
  else
    Raising.lift (checkArguments l.program f pos function.params args)
    l.raisingInvoke fuel f args pos

end Loaded

/-!
# Runs that raise errors only
-/

namespace Raising

variable {σ α β : Type}

abbrev Raises (x : Eval σ α) (y : Raising σ α) : Prop :=
  Run.Matches (fun e s => s = .error e) Eq False x y

theorem raises_iff {x : Eval σ α} {y : Raising σ α} : Raises x y <-> y = lift x := by
  constructor
  · intro h
    funext m
    have hm := h m m rfl
    rw [lift]
    generalize x m = first at hm
    generalize y m = second at hm
    cases hm with
    | done hstate => rw [hstate]
    | failed he hstate => rw [he, hstate]
    | unfinished => rfl
    | cut hnever => exact hnever.elim
  · rintro rfl m _ rfl
    rw [lift]
    cases x m with
    | done a m' => exact .done rfl
    | failed e m' => exact .failed rfl rfl
    | unfinished => exact .unfinished

theorem raises_lift (x : Eval σ α) : Raises x (lift x) :=
  raises_iff.mpr rfl

theorem error_of_lift {x : Eval σ α} {m m' : Machine σ} {s : Signal}
    (h : lift x m = .failed s m') : exists e, s = .error e ∧ x m = .failed e m' := by
  rw [lift] at h
  cases houtcome : x m with
  | done a m'' =>
      rw [houtcome] at h
      cases h
  | failed e m'' =>
      rw [houtcome] at h
      cases h
      exact ⟨e, rfl, rfl⟩
  | unfinished =>
      rw [houtcome] at h
      cases h

theorem lift_bind {τ : Type} (x : Run RuntimeError τ α) (f : α -> Run RuntimeError τ β) :
    lift (x >>= f) = lift x >>= fun a => lift (f a) := by
  funext m
  rw [lift, Run.bind_apply, Run.bind_apply, lift]
  cases x m <;> rfl

/-!
# Unwinding
-/

section Unwinding

variable {m : Type -> Type} [Monad m] (leave : Value -> m Unit)

def unwind (x : m Flow) : m Unit := do
  match ← x with
  | .next => return ()
  | .returned value => leave value

/-- Nothing follows on what leaves a body, nor on a loop without an end. -/
structure Stops (acts : Actions m) (leave : Value -> m Unit) : Prop where
  leave : forall value (next : Unit -> m Unit), leave value >>= next = leave value
  exhausted : forall next : Flow -> m Unit, acts.exhausted >>= next = acts.exhausted

variable [LawfulMonad m]

theorem unwind_bind (x : m α) (f : α -> m Flow) :
    unwind leave (x >>= f) = x >>= fun a => unwind leave (f a) :=
  bind_assoc x f _

theorem unwind_pure (flow : Flow) :
    unwind leave (pure flow) = match flow with
      | .next => pure ()
      | .returned value => leave value :=
  pure_bind flow _

theorem unwind_next (x : m Unit) : unwind leave (x >>= fun _ => return .next) = x := by
  simp only [unwind_bind, unwind_pure]
  exact bind_pure x

variable {leave} {acts : Actions m} {p : Program}

theorem store_eq (pos : Pos) (id : VarId) (value : Expr) :
    (do let v ← Walk.expr acts p value
        acts.writeVar id v pos) = unwind leave (Walk.store acts p pos id value) := by
  rw [Walk.store, unwind_bind]
  simp only [unwind_next]

variable (h : Stops acts leave)

include h

theorem loopWithin_eq (cond : m Bool) (body : m Flow) (limit : Nat) :
    loopWithin acts cond (unwind leave body) limit =
      unwind leave (Walk.loopWithin acts cond body limit) := by
  induction limit with
  | zero => exact (h.exhausted _).symm
  | succ limit ih =>
      rw [loopWithin, Walk.loopWithin, unwind_bind]
      congr 1
      funext holds
      cases holds with
      | false => exact (unwind_pure leave .next).symm
      | true =>
          rw [ih]
          show unwind leave body >>= _ = unwind leave (body >>= _)
          rw [unwind_bind, unwind, bind_assoc]
          congr 1
          funext flow
          cases flow with
          | next => exact pure_bind _ _
          | returned value => exact (h.leave value _).trans (unwind_pure leave (.returned value)).symm

mutual

theorem stmt_eq (fuel : Nat) : forall s : Stmt,
    stmt p acts leave fuel s = unwind leave (Walk.stmt acts p fuel s)
  | .constDecl _ _ => (unwind_pure leave .next).symm
  | .funDecl _ _ => (unwind_pure leave .next).symm
  | .varDecl _ _ none => (unwind_pure leave .next).symm
  | .varDecl pos id (some init) => store_eq pos id init
  | .block _ body => stmts_eq fuel body
  | .ifThen _ cond _ body => by
      rw [stmt, Walk.stmt, unwind_bind, stmts_eq fuel body]
      congr 1
      funext holds
      cases holds with
      | false => exact (unwind_pure leave .next).symm
      | true => rfl
  | .whileDo _ cond _ body => by
      rw [stmt, Walk.stmt, stmts_eq fuel body]
      exact loopWithin_eq h _ _ fuel
  | .ret _ value => by
      rw [stmt, Walk.stmt, unwind_bind]
      simp only [unwind_pure]
  | .assign pos id value => store_eq pos id value
  | .call pos f args => by
      rw [stmt, Walk.stmt, unwind_bind]
      simp only [unwind_bind, unwind_pure]
  | .async pos target f args => by
      rw [stmt, Walk.stmt, unwind_bind]
      simp only [unwind_next]
  | .await pos target => (unwind_next leave _).symm

theorem stmts_eq (fuel : Nat) : forall body : List Stmt,
    stmts p acts leave fuel body = unwind leave (Walk.stmts acts p fuel body)
  | [] => (unwind_pure leave .next).symm
  | s :: rest => by
      rw [stmts, Walk.stmts, stmt_eq fuel s, stmts_eq fuel rest, unwind_bind, unwind, bind_assoc]
      congr 1
      funext flow
      cases flow with
      | next => exact pure_bind _ _
      | returned value => exact (h.leave value _).trans (unwind_pure leave (.returned value)).symm

end
end Unwinding

theorem stops (p : Program) (invoke : FunId -> List Value -> Pos -> Raising σ (Option Value)) :
    Stops (actions p invoke) leave where
  leave := fun _ _ => rfl
  exhausted := fun _ => rfl

theorem inFrame_unwind (p : Program) (frame : Frame) (body : Eval σ Flow) :
    inFrame p frame (unwind leave (lift body)) = unwind leave (lift (Eval.inFrame p frame body)) := by
  funext m
  simp only [inFrame, unwind, lift, Eval.inFrame, Run.bind_apply]
  cases body (m.push frame) with
  | done flow m' => cases flow <;> rfl
  | failed e m' => rfl
  | unfinished => rfl

theorem catchReturn_unwind (body : Eval σ Flow) :
    catchReturn (unwind leave (lift body)) = lift (body >>= fun flow => return flow.value?) := by
  funext m
  simp only [catchReturn, unwind, lift, Run.bind_apply]
  cases body m with
  | done flow m' => cases flow <;> rfl
  | failed e m' => rfl
  | unfinished => rfl

/-!
# Calls
-/

theorem asTask_lift (call : Eval σ (Option Value)) :
    asTask (lift call) = lift (Eval.asTask call) := by
  funext m
  simp only [asTask, lift, Eval.asTask]
  cases call m.forTask <;> rfl

theorem startTask_lift (p : Program) (invoke : Invoke σ) (pos : Pos) (target : VarId) (f : FunId)
    (values : List Value) :
    startTask p (lift (invoke f values pos)) pos target f =
      lift (Eval.startCall p invoke pos target f values) := by
  simp only [startTask, asTask_lift, Eval.startCall, lift_bind]

theorem actions_match (p : Program) (invoke : Invoke σ) :
    (Actions.plain p invoke).Match (fun _ => True) (fun e s => s = .error e) Eq False
      (actions p fun f values pos => lift (invoke f values pos)) where
  raise := fun _ => matches_fail rfl
  reads := fun _ _ => raises_lift _
  writes := fun _ _ _ _ => raises_lift _
  calls := fun _ _ _ => raises_lift _
  starts := fun _ _ _ => raises_iff.mpr (startTask_lift p invoke _ _ _ _)
  awaits := fun _ _ => raises_lift _
  exhausted := raises_lift _

theorem stmts_lift (p : Program) (invoke : Invoke σ) (fuel : Nat) (body : List Stmt) :
    stmts p (actions p fun f values pos => lift (invoke f values pos)) leave fuel body =
      unwind leave (lift (Eval.stmts p fuel invoke body)) := by
  rw [stmts_eq (stops p _), ← walk_stmts_plain]
  congr 1
  apply raises_iff.mp
  exact matches_stmts (actions_match p invoke) fuel body fun _ _ => trivial

variable (l : Loaded σ)

theorem raisingInvoke_eq (fuel : Nat) :
    l.raisingInvoke fuel = fun f values pos => lift (l.invoke fuel f values pos) := by
  -- By induction on the fuel: what the calls of a body raise is errors, and the returns of the
  -- body itself are caught.
  induction fuel with
  | zero => rfl
  | succ fuel ih =>
      funext f values pos
      cases hbody : (l.program.function f).body with
      | none =>
          simp only [Loaded.raisingInvoke, Loaded.invoke, hbody, lift_bind]
          congr 1
          funext result
          split <;> rfl
      | some block =>
          simp only [Loaded.raisingInvoke, Loaded.invoke, hbody]
          rw [ih, stmts_lift, inFrame_unwind, catchReturn_unwind]
          simp only [lift_bind, bind_assoc]
          rfl

theorem raisingRun_eq (fuel : Nat) : l.raisingRun fuel = lift (l.run fuel) := by
  rw [Loaded.raisingRun, raisingInvoke_eq, stmts_lift, catchReturn_unwind, Loaded.run]
  simp only [lift_bind, bind_assoc]
  rfl

theorem raisingCallFunction_eq (fuel : Nat) (f : FunId) (args : List Value) :
    l.raisingCallFunction fuel f args = lift (l.callFunction fuel f args) := by
  rw [Loaded.raisingCallFunction, raisingInvoke_eq, Loaded.callFunction]
  split
  · rfl
  · rw [lift_bind]

end Raising
end Scriptlet
