import Scriptlet.Proofs.Binding.Programs
import Scriptlet.Proofs.Evaluation.QuietCalls
import Scriptlet.Proofs.Evaluation.TaskLog

/-!
# Calls that are awaited at once

To start a call as a task and to await it right behind, is to assign the result of the call,
if the call is quiet and its function stands in no other.  Only an error of the call comes
out in another way: as the cause of a failed task.  Where the variable has no set of tasks,
as in a task of a function that stands in the owner, the start is refused and its error
hides that of the call.
-/

namespace Scriptlet

/-!
# Machines but for their tasks
-/

def Frame.bare (frame : Frame) : Frame :=
  { frame with tasks := .empty }

namespace TaskList

variable {task : PendingTask} {pending : List PendingTask}

theorem replace_eq_append (h : pending.find? (·.target == task.target) = none) :
    replace task pending = pending ++ [task] := by
  induction pending with
  | nil => rfl
  | cons other rest ih =>
      rw [List.find?_cons] at h
      cases hother : other.target == task.target with
      | true =>
          rw [hother] at h
          cases h
      | false =>
          rw [hother] at h
          rw [replace, if_neg (beq_eq_false_iff_ne.mp hother), ih h]
          rfl

theorem erase_insert {tasks : TaskList} (name : VarId -> String)
    (h : tasks.find? task.target = none) : (tasks.insert name task).erase task.target = tasks := by
  have hnot := List.find?_eq_none.mp h
  have hpending : (replace task tasks.pending).eraseP (·.target == task.target) = tasks.pending := by
    rw [replace_eq_append h, List.eraseP_append_right _ hnot]
    simp
  rw [erase, insert, hpending, h]
  simp

end TaskList

namespace Machine

variable {σ : Type} {p : Program} {m m' : Machine σ} {id : VarId}

/-- The machine without the tasks that wait in it and without its leaks. -/
def bare (m : Machine σ) : Machine σ :=
  { m with frames := m.frames.map Frame.bare, tasks := .empty }

/-- The same host, the same globals and the same frames but for tasks. -/
def SameBare (m m' : Machine σ) : Prop :=
  m.bare = m'.bare

theorem bare_updateTasks? {change : TaskList -> TaskList} (h : m.updateTasks? p id change = some m') :
    m'.bare = m.bare := by
  rw [updateTasks?] at h
  cases howner : (p.variableAt id).owner with
  | none =>
      rw [howner] at h
      cases h
      rfl
  | some owner =>
      rw [howner] at h
      rcases Option.map_eq_some_iff.mp h with ⟨frames, hframes, rfl⟩
      have hbare : frames.map Frame.bare = m.frames.map Frame.bare :=
        map_updateFrame hframes fun _ => rfl
      simp only [bare, hbare]

theorem bare_store? (p : Program) (m : Machine σ) (id : VarId) (v : Value) :
    (m.store? p id v).map bare = m.bare.store? p id v := by
  rw [store?, store?]
  cases (p.variableAt id).owner with
  | none => rfl
  | some owner =>
      have hupdate : forall frames : List Frame,
          updateFrame owner (·.setSlot (p.variableAt id).slot v) (frames.map Frame.bare) =
            (updateFrame owner (·.setSlot (p.variableAt id).slot v) frames).map
              (·.map Frame.bare) := by
        intro frames
        induction frames with
        | nil => rfl
        | cons frame rest ih =>
            rw [List.map_cons, updateFrame, updateFrame]
            by_cases howner : frame.owner = owner
            · rw [if_pos howner, if_pos (show frame.bare.owner = owner from howner)]
              rfl
            · rw [if_neg howner, if_neg (show ¬frame.bare.owner = owner from howner), ih,
                Option.map_map, Option.map_map]
              rfl
      simp only [bare, hupdate, Option.map_map]
      rfl

/-!
# A task that is passed on
-/

theorem tasksFor_updateTasks? {tasks : TaskList} {change : TaskList -> TaskList}
    (htasks : m.tasksFor p id = some tasks) (h : m.updateTasks? p id change = some m') :
    m'.tasksFor p id = some (change tasks) := by
  rw [tasksFor] at htasks ⊢
  rw [updateTasks?] at h
  cases howner : (p.variableAt id).owner with
  | none =>
      rw [howner] at htasks h
      cases htasks
      cases h
      rfl
  | some owner =>
      rw [howner] at htasks h
      rcases Option.map_eq_some_iff.mp htasks with ⟨frame, hframe, rfl⟩
      rcases Option.map_eq_some_iff.mp h with ⟨frames, hframes, rfl⟩
      have hfind := find?_updateFrame hframes fun _ => rfl
      rw [frameOf] at hframe
      simp only [frameOf, hfind, hframe, Option.map_some]
      rfl

theorem updateFrame_undo {owner : FunId} {change undo : Frame -> Frame} {frames frames' : List Frame}
    {frame : Frame} (hfind : frames.find? (·.owner == owner) = some frame)
    (howner : (change frame).owner = frame.owner) (hundo : undo (change frame) = frame)
    (h : updateFrame owner change frames = some frames') :
    updateFrame owner undo frames' = some frames := by
  induction frames generalizing frames' with
  | nil => cases h
  | cons other rest ih =>
      rw [updateFrame] at h
      rw [List.find?_cons] at hfind
      by_cases hof : other.owner = owner
      · rw [if_pos hof] at h
        rw [beq_iff_eq.mpr hof] at hfind
        cases h
        cases hfind
        rw [updateFrame, if_pos (howner.trans hof), hundo]
      · rw [if_neg hof] at h
        rw [beq_eq_false_iff_ne.mpr hof] at hfind
        rcases Option.map_eq_some_iff.mp h with ⟨rest', hrest, hcons⟩
        cases hcons
        rw [updateFrame, if_neg hof, ih hfind hrest]
        rfl

theorem updateTasks?_undo {tasks : TaskList} {change undo : TaskList -> TaskList}
    (htasks : m.tasksFor p id = some tasks) (hundo : undo (change tasks) = tasks)
    (h : m.updateTasks? p id change = some m') : m'.updateTasks? p id undo = some m := by
  rw [tasksFor] at htasks
  rw [updateTasks?] at h ⊢
  cases howner : (p.variableAt id).owner with
  | none =>
      rw [howner] at htasks h
      cases htasks
      cases h
      simp only [hundo]
  | some owner =>
      rw [howner] at htasks h
      rcases Option.map_eq_some_iff.mp htasks with ⟨frame, hframe, rfl⟩
      rcases Option.map_eq_some_iff.mp h with ⟨frames, hframes, rfl⟩
      have hback : updateFrame owner (·.mapTasks undo) frames = some m.frames := by
        apply updateFrame_undo hframe rfl _ hframes
        simp only [Frame.mapTasks, hundo]
      simp only [hback, Option.map_some]

end Machine

/-!
# Starting and awaiting
-/

section Passing

variable {σ : Type} {p : Program} {m : Machine σ} {task : PendingTask}

theorem takeTask_addTask {tasks : TaskList} (h : m.tasksFor p task.target = some tasks) (pos : Pos) :
    exists m', (Eval.addTask p task >>= fun _ => Eval.takeTask p task.target pos) m = .done task m' ∧
      m'.bare = m.bare ∧ (tasks.find? task.target = none -> m' = m) := by
  have hadd := (Machine.finds_of_tasksFor h).update (·.insert (Eval.variableName p) task)
  rcases Option.isSome_iff_exists.mp hadd with ⟨added, hadded⟩
  have htasks := Machine.tasksFor_updateTasks? h hadded
  have htake := (Machine.finds_of_tasksFor htasks).update (·.erase task.target)
  rcases Option.isSome_iff_exists.mp htake with ⟨taken, htaken⟩
  have hfind : (tasks.insert (Eval.variableName p) task).find? task.target = some task :=
    (TaskList.find?_replace task tasks.pending task.target).trans (if_pos rfl)
  refine ⟨taken, ?_, ?_, ?_⟩
  · rw [Run.bind_apply, Eval.addTask, hadded]
    simp only [Eval.takeTask, htasks, Option.bind_some, hfind, htaken]
  · exact (Machine.bare_updateTasks? htaken).trans (Machine.bare_updateTasks? hadded)
  · intro hnone
    have hundo : added.updateTasks? p task.target (·.erase task.target) = some m :=
      Machine.updateTasks?_undo h (TaskList.erase_insert _ hnone) hadded
    exact Option.some.inj (htaken.symm.trans hundo)

end Passing

/-!
# The two ways
-/

/-- A call whose result goes into a variable. -/
structure CallInto where
  target : VarId
  callee : FunId
  args : List Expr
  pos : Pos

namespace Loaded

variable {σ : Type} (l : Loaded σ) (fuel : Nat) (c : CallInto)

def callArguments : Eval σ (List Value) :=
  Eval.arguments l.program (l.invoke fuel) c.callee c.pos (l.program.function c.callee).params c.args

def assignCall (pos : Pos) : Eval σ Flow :=
  Eval.stmt l.program fuel (l.invoke fuel) (.assign pos c.target (.call c.pos c.callee c.args))

def awaitCall (pos : Pos) : Eval σ Flow :=
  Eval.stmts l.program fuel (l.invoke fuel)
    [.async c.pos c.target c.callee c.args, .await pos c.target]

def taskOf (result : TaskResult) : PendingTask :=
  { target := c.target, function := (l.program.function c.callee).name, pos := c.pos, result := result }

def storeResult (pos : Pos) : Option Value -> Eval σ Flow
  | some value => do
      Eval.writeVar l.program c.target value pos
      return .next
  | none => Eval.mismatch (.result (l.program.function c.callee).name) .any .none c.pos

def deliver (pos : Pos) (task : PendingTask) : Eval σ Flow :=
  match task.result with
  | .error e => Eval.failAt (.taskFailed task.function e.cause e.pos) pos
  | .ok none =>
      Eval.mismatch (.taskResult task.function) (l.program.variableAt c.target).type .none pos
  | .ok (some value) => do
      Eval.writeVar l.program c.target value pos
      return .next

theorem assignCall_eq (pos : Pos) : l.assignCall fuel c pos =
    l.callArguments fuel c >>= fun values =>
      l.invoke fuel c.callee values c.pos >>= l.storeResult c pos := by
  simp only [assignCall, Eval.stmt, Eval.expr, bind_assoc]
  refine congrArg (l.callArguments fuel c >>= ·) (funext fun values => ?_)
  refine congrArg (l.invoke fuel c.callee values c.pos >>= ·) (funext fun result => ?_)
  cases result <;> rfl

def finishAssign (pos : Pos) (values : List Value) : Eval σ Flow :=
  l.invoke fuel c.callee values c.pos >>= l.storeResult c pos

def finishAwait (pos : Pos) (values : List Value) : Eval σ Flow :=
  Eval.asTask (l.invoke fuel c.callee values c.pos) >>= fun result =>
    (Eval.addTask l.program (l.taskOf c result) >>= fun _ =>
      Eval.takeTask l.program c.target pos) >>= l.deliver c pos

theorem awaitCall_eq (pos : Pos) : l.awaitCall fuel c pos =
    l.callArguments fuel c >>= fun values =>
      Eval.checkTarget l.program c.target c.pos >>= fun _ => l.finishAwait fuel c pos values := by
  simp only [awaitCall, finishAwait, Eval.stmts, Eval.stmt, Eval.startTask, Eval.startCall,
    Eval.awaitTask, bind_assoc]
  refine congrArg (l.callArguments fuel c >>= ·) (funext fun values => ?_)
  refine congrArg (Eval.checkTarget l.program c.target c.pos >>= ·) (funext fun _ => ?_)
  refine congrArg (Eval.asTask (l.invoke fuel c.callee values c.pos) >>= ·) (funext fun result => ?_)
  refine congrArg (Eval.addTask l.program (l.taskOf c result) >>= ·) (funext fun _ => ?_)
  refine congrArg (Eval.takeTask l.program c.target pos >>= ·) (funext fun task => ?_)
  rw [deliver]
  cases task.result with
  | error e => rfl
  | ok result => cases result <;> rfl

end Loaded

/-!
# Behind the arguments
-/

section Machines

variable {σ : Type} {p : Program} {m m' : Machine σ} {id : VarId}

theorem Machine.store?_eq_none (h : m.tasksFor p id = none) (v : Value) :
    m.store? p id v = none := by
  rw [tasksFor] at h
  rw [store?]
  cases howner : (p.variableAt id).owner with
  | none =>
      rw [howner] at h
      cases h
  | some owner =>
      rw [howner] at h
      simp only [updateFrame_eq_none (Option.map_eq_none_iff.mp h), Option.map_none]

theorem Machine.isSome_tasksFor (h : m'.owners = m.owners) (id : VarId) :
    (m'.tasksFor p id).isSome = (m.tasksFor p id).isSome := by
  rw [Bool.eq_iff_iff, isSome_tasksFor_iff, isSome_tasksFor_iff, h]

def StoresAlike (p : Program) (id : VarId) (alike : Machine σ -> Machine σ -> Prop) : Prop :=
  forall v m m', alike m m' -> Option.Rel alike (m.store? p id v) (m'.store? p id v)

theorem storesAlike_eq (p : Program) (id : VarId) :
    StoresAlike p id (Eq : Machine σ -> Machine σ -> Prop) := by
  rintro v m _ rfl
  cases m.store? p id v with
  | none => exact .none
  | some stored => exact .some rfl

theorem storesAlike_bare (p : Program) (id : VarId) :
    StoresAlike p id (Machine.SameBare : Machine σ -> Machine σ -> Prop) := by
  intro v m m' h
  rw [Machine.SameBare] at h
  have hstore := Machine.bare_store? p m id v
  rw [h, ← Machine.bare_store?] at hstore
  cases hm : m.store? p id v <;> cases hm' : m'.store? p id v <;> rw [hm, hm'] at hstore
  · exact .none
  · cases hstore
  · cases hstore
  · exact .some (Option.some.inj hstore)

end Machines

def Outcome.settled {σ : Type} : Outcome RuntimeError σ (Option Value) -> Outcome RuntimeError σ TaskResult
  | .done value s => .done (.ok value) s
  | .failed e s => .done (.error e) s
  | .unfinished => .unfinished

namespace Loaded

variable {σ : Type} {l : Loaded σ} {fuel : Nat} {c : CallInto} {m : Machine σ}

theorem matches_deliver {alike : Machine σ -> Machine σ -> Prop}
    (hstores : StoresAlike l.program c.target alike) (pos pos' : Pos) (result : Option Value) :
    (l.storeResult c pos result).Matches (fun _ _ => True) alike False
      (l.deliver c pos' (l.taskOf c (.ok result))) := by
  cases result with
  | none => exact fun _ _ h => .failed trivial h
  | some v =>
      have hwrite : (Eval.writeVar l.program c.target v pos).Matches (fun _ _ => True) alike False
          (Eval.writeVar l.program c.target v pos') := by
        intro m m' h
        unfold Eval.writeVar
        by_cases htype : (l.program.variableAt c.target).type = v.type
        · simp only [if_pos htype]
          have hstored := hstores v m m' h
          generalize m.store? l.program c.target v = first at hstored
          generalize m'.store? l.program c.target v = second at hstored
          cases hstored with
          | none => exact .failed trivial h
          | some hsame => exact .done hsame
        · simp only [if_neg htype]
          exact .failed trivial h
      exact hwrite.bind fun _ => matches_pure _

theorem asTask_eq {x : Eval σ (Option Value)}
    (h : x m = (x m.forTask).mapState m.afterTask) : Eval.asTask x m = (x m).settled := by
  rw [Eval.asTask, h]
  cases x m.forTask <;> rfl

theorem pass_done {tasks : TaskList} (h : m.tasksFor l.program c.target = some tasks)
    (result : TaskResult) (pos : Pos) :
    exists m', ((Eval.addTask l.program (l.taskOf c result) >>= fun _ =>
      Eval.takeTask l.program c.target pos) >>= l.deliver c pos) m =
        l.deliver c pos (l.taskOf c result) m' ∧
      m'.bare = m.bare ∧ (tasks.find? c.target = none -> m' = m) := by
  have htarget : (l.taskOf c result).target = c.target := rfl
  rw [← htarget] at h ⊢
  rcases takeTask_addTask h pos with ⟨m', hpass, hsame⟩
  refine ⟨m', ?_, hsame⟩
  rw [Run.bind_apply, hpass]

theorem storeResult_refused (h : m.tasksFor l.program c.target = none) (pos : Pos)
    (result : Option Value) : exists e, l.storeResult c pos result m = .failed e m := by
  -- Without a set there is no slot, so the assignment fails as well.
  cases result with
  | none => exact ⟨_, rfl⟩
  | some v =>
      rw [storeResult, Run.bind_apply, Eval.writeVar, Machine.store?_eq_none h]
      by_cases htype : (l.program.variableAt c.target).type = v.type
      · simp only [if_pos htype]
        exact ⟨_, rfl⟩
      · simp only [if_neg htype]
        exact ⟨_, rfl⟩

def RunsApart (l : Loaded σ) (fuel : Nat) (c : CallInto) : Prop :=
  forall values m, l.invoke fuel c.callee values c.pos m =
    (l.invoke fuel c.callee values c.pos m.forTask).mapState m.afterTask

variable (happart : l.RunsApart fuel c) {values : List Value}

include happart

theorem tasksFor_settled {result : TaskResult} {m' : Machine σ}
    (hcall : (l.invoke fuel c.callee values c.pos m).settled = .done result m') (id : VarId) :
    m'.tasksFor l.program id = m.tasksFor l.program id := by
  rw [happart] at hcall
  cases htask : l.invoke fuel c.callee values c.pos m.forTask with
  | done value task =>
      rw [htask] at hcall
      cases hcall
      rfl
  | failed e task =>
      rw [htask] at hcall
      cases hcall
      rfl
  | unfinished =>
      rw [htask] at hcall
      cases hcall

theorem finishAwait_settled {tasks : TaskList} (htasks : m.tasksFor l.program c.target = some tasks)
    {result : TaskResult} {m' : Machine σ}
    (hcall : (l.invoke fuel c.callee values c.pos m).settled = .done result m') (pos : Pos) :
    exists m'', l.finishAwait fuel c pos values m = l.deliver c pos (l.taskOf c result) m'' ∧
      m''.bare = m'.bare ∧ (tasks.find? c.target = none -> m'' = m') := by
  have hsets := tasksFor_settled happart hcall c.target
  rw [finishAwait, Run.bind_apply, asTask_eq (happart values m), hcall]
  exact pass_done (hsets.trans htasks) result pos

theorem matches_finish {tasks : TaskList} (htasks : m.tasksFor l.program c.target = some tasks)
    {alike : Machine σ -> Machine σ -> Prop} (hstores : StoresAlike l.program c.target alike)
    (hpass : forall m' m'', m''.bare = m'.bare ->
      (tasks.find? c.target = none -> m'' = m') -> alike m' m'') (pos pos' : Pos) :
    (l.finishAssign fuel c pos values m).Matches (fun _ _ => True) alike False
      (l.finishAwait fuel c pos' values m) := by
  rw [finishAssign, Run.bind_apply]
  cases hcall : l.invoke fuel c.callee values c.pos m with
  | unfinished =>
      rw [finishAwait, Run.bind_apply, asTask_eq (happart values m), hcall]
      exact .unfinished
  | failed e m' =>
      rcases finishAwait_settled happart htasks (congrArg Outcome.settled hcall) pos' with
        ⟨m'', hend, hbare, hsame⟩
      rw [hend]
      exact .failed trivial (hpass m' m'' hbare hsame)
  | done result m' =>
      rcases finishAwait_settled happart htasks (congrArg Outcome.settled hcall) pos' with
        ⟨m'', hend, hbare, hsame⟩
      rw [hend]
      exact matches_deliver hstores pos pos' result m' m'' (hpass m' m'' hbare hsame)

theorem finishAssign_refused (hnone : m.tasksFor l.program c.target = none) (pos : Pos)
    {flow : Flow} {m' : Machine σ} : l.finishAssign fuel c pos values m ≠ .done flow m' := by
  rw [finishAssign, Run.bind_apply]
  cases hcall : l.invoke fuel c.callee values c.pos m with
  | unfinished => exact fun h => nomatch h
  | failed e m' => exact fun h => nomatch h
  | done result m' =>
      have hsets := tasksFor_settled happart (congrArg Outcome.settled hcall) c.target
      rcases storeResult_refused (hsets.trans hnone) pos result with ⟨e, hrefused⟩
      simp only [hrefused]
      exact fun h => nomatch h

end Loaded

/-!
# Both ways
-/

def RuntimeError.ofTask (p : Program) (f : FunId) (pos : Pos) (e : RuntimeError) : RuntimeError :=
  { cause := .taskFailed (p.function f).name e.cause e.pos, pos := pos }

/-- To await the call at one place is to assign its result at another. -/
structure Loaded.AwaitRefines {σ : Type} (l : Loaded σ) (fuel : Nat) (c : CallInto) (pos pos' : Pos)
    (m : Machine σ) : Prop where
  /-- Both end well or both fail, with the same host, globals and slots of frames. -/
  ends : (m.tasksFor l.program c.target).isSome ->
    (l.assignCall fuel c pos m).Matches (fun _ _ => True) Machine.SameBare False
      (l.awaitCall fuel c pos' m)
  arguments : forall {e m'}, l.callArguments fuel c m = .failed e m' ->
    l.assignCall fuel c pos m = .failed e m' ∧ l.awaitCall fuel c pos' m = .failed e m'
  /-- Also the same tasks wait, if none waits on the variable behind the arguments. -/
  tasks : forall {values m₁ waiting}, l.callArguments fuel c m = .done values m₁ ->
    m₁.tasksFor l.program c.target = some waiting -> waiting.find? c.target = none ->
    (l.assignCall fuel c pos m).Matches (fun _ _ => True) Eq False (l.awaitCall fuel c pos' m)
  /-- An error of the call comes out of the await. -/
  errors : (m.tasksFor l.program c.target).isSome -> forall {values m₁ e m₂},
    l.callArguments fuel c m = .done values m₁ ->
    l.invoke fuel c.callee values c.pos m₁ = .failed e m₂ ->
    l.assignCall fuel c pos m = .failed e m₂ ∧
      exists m₃, m₂.SameBare m₃ ∧
        l.awaitCall fuel c pos' m = .failed (e.ofTask l.program c.callee pos') m₃
  /-- Where the variable has no set, the start is refused behind the arguments, whatever the
  call would do, and the assignment does not end well either. -/
  refused : m.tasksFor l.program c.target = none -> forall {values m₁},
    l.callArguments fuel c m = .done values m₁ ->
    l.awaitCall fuel c pos' m = .failed
      { cause := .unknownAsyncTarget (l.program.variableAt c.target).name, pos := c.pos } m₁ ∧
    forall flow m₂, l.assignCall fuel c pos m ≠ .done flow m₂

section Refines

variable {σ : Type} {l : Loaded σ} {fuel : Nat} {c : CallInto} (happart : l.RunsApart fuel c)

include happart

theorem awaitRefines_of_apart (pos pos' : Pos) (m : Machine σ) : l.AwaitRefines fuel c pos pos' m := by
  have hassign : forall {values m₁}, l.callArguments fuel c m = .done values m₁ ->
      l.assignCall fuel c pos m = l.finishAssign fuel c pos values m₁ := by
    intro values m₁ h
    rw [l.assignCall_eq, Run.bind_apply, h]
    rfl
  have hsets : forall {values m₁}, l.callArguments fuel c m = .done values m₁ ->
      (m₁.tasksFor l.program c.target).isSome = (m.tasksFor l.program c.target).isSome :=
    fun h => Machine.isSome_tasksFor (owners_arguments h) c.target
  have hawait : forall {values m₁ waiting}, l.callArguments fuel c m = .done values m₁ ->
      m₁.tasksFor l.program c.target = some waiting ->
      l.awaitCall fuel c pos' m = l.finishAwait fuel c pos' values m₁ := by
    intro values m₁ waiting h hwaiting
    rw [l.awaitCall_eq, Run.bind_apply, h]
    simp only [Run.bind_apply, Eval.checkTarget, hwaiting]
  have harguments : forall {e m'}, l.callArguments fuel c m = .failed e m' ->
      l.assignCall fuel c pos m = .failed e m' ∧ l.awaitCall fuel c pos' m = .failed e m' := by
    intro e m' h
    rw [l.assignCall_eq, l.awaitCall_eq, Run.bind_apply, Run.bind_apply, h]
    exact ⟨rfl, rfl⟩
  refine ⟨?_, harguments, ?_, ?_, ?_⟩
  · intro hsome
    cases hstart : l.callArguments fuel c m with
    | unfinished =>
        rw [l.assignCall_eq, l.awaitCall_eq, Run.bind_apply, Run.bind_apply, hstart]
        exact .unfinished
    | failed e m' =>
        rw [(harguments hstart).1, (harguments hstart).2]
        exact .failed trivial rfl
    | done values m₁ =>
        rcases Option.isSome_iff_exists.mp ((hsets hstart).trans hsome) with ⟨waiting, hwaiting⟩
        rw [hassign hstart, hawait hstart hwaiting]
        refine Loaded.matches_finish happart hwaiting (storesAlike_bare _ _) ?_ pos pos'
        exact fun _ _ hbare _ => hbare.symm
  · intro values m₁ waiting hstart hwaiting hnone
    rw [hassign hstart, hawait hstart hwaiting]
    refine Loaded.matches_finish happart hwaiting (storesAlike_eq _ _) ?_ pos pos'
    exact fun _ _ _ hsame => (hsame hnone).symm
  · intro hsome values m₁ e m₂ hstart hcall
    rcases Option.isSome_iff_exists.mp ((hsets hstart).trans hsome) with ⟨waiting, hwaiting⟩
    rw [hassign hstart, hawait hstart hwaiting]
    refine ⟨by rw [Loaded.finishAssign, Run.bind_apply, hcall], ?_⟩
    rcases Loaded.finishAwait_settled happart hwaiting (congrArg Outcome.settled hcall) pos' with
      ⟨m₃, hend, hbare, -⟩
    exact ⟨m₃, hbare.symm, hend⟩
  · intro hnone values m₁ hstart
    have hgone : m₁.tasksFor l.program c.target = none := by
      rw [← Option.isNone_iff_eq_none, ← Option.not_isSome, hsets hstart, hnone]
      rfl
    refine ⟨?_, fun flow m₂ => ?_⟩
    · rw [l.awaitCall_eq, Run.bind_apply, hstart]
      simp only [Run.bind_apply, Eval.checkTarget, hgone]
      rfl
    · rw [hassign hstart]
      exact Loaded.finishAssign_refused happart hgone pos

end Refines

section Boom

def boomTokens : List Token :=
  [(.funWord, "fun"), (.name, "boom"), (.openParen, "("), (.closeParen, ")"), (.colon, ":"),
    (.intType, "int"), (.openBrace, "\x7b"), (.returnWord, "return"), (.intLit, "1"), (.slash, "/"),
    (.intLit, "0"), (.closeBrace, "\x7d"), (.funWord, "fun"), (.name, "outer"), (.openParen, "("),
    (.closeParen, ")"), (.openBrace, "\x7b"), (.varWord, "var"), (.name, "r"), (.colon, ":"),
    (.intType, "int"), (.funWord, "fun"), (.name, "inner"), (.openParen, "("), (.closeParen, ")"),
    (.colon, ":"), (.intType, "int"), (.openBrace, "\x7b"), (.asyncWord, "async"), (.name, "r"),
    (.assign, ":="), (.name, "boom"), (.openParen, "("), (.closeParen, ")"), (.awaitWord, "await"),
    (.name, "r"), (.returnWord, "return"), (.name, "r"), (.closeBrace, "\x7d"),
    (.asyncWord, "async"), (.name, "r"), (.assign, ":="), (.name, "inner"), (.openParen, "("),
    (.closeParen, ")"), (.awaitWord, "await"), (.name, "r"), (.closeBrace, "\x7d"),
    (.name, "outer"), (.openParen, "("), (.closeParen, ")")].map fun word =>
      { pos := .endOfInput, kind := word.1, text := word.2 }

def boomBlock : Block where
  head := { scope := 1, pos := .endOfInput }
  body := [.ret .endOfInput
    (.binary .endOfInput .div (.literal .endOfInput (.int 1)) (.literal .endOfInput (.int 0)))]

def boomInnerBlock : Block where
  head := { scope := 3, pos := .endOfInput }
  body := [.async .endOfInput 0 0 [], .await .endOfInput 0, .ret .endOfInput (.var .endOfInput 0)]

def boomOuterBlock : Block where
  head := { scope := 2, pos := .endOfInput }
  body := [.varDecl .endOfInput 0 none, .funDecl .endOfInput 2, .async .endOfInput 0 2 [],
    .await .endOfInput 0]

def boomProgram : Program :=
  let boom : Function :=
    { name := "boom", params := [], result := .int, localCount := 0, body := some boomBlock }
  let outer : Function :=
    { name := "outer", params := [], result := .none, localCount := 1, body := some boomOuterBlock }
  let inner : Function :=
    { name := "inner", params := [], result := .int, localCount := 0, body := some boomInnerBlock }
  { root := [.funDecl .endOfInput 0, .funDecl .endOfInput 1, .call .endOfInput 1 []]
    constants := []
    vars := [{ name := "r", type := .int, owner := some 1, slot := 0, default := none }]
    functions := [boom, outer, inner]
    globalCount := 0
    globals := [.function 0, .function 1] }

theorem parse_boomTokens :
    parse ([] : List (Extern Unit)) boomTokens = .ok { program := boomProgram, warnings := [] } := by
  cbv

def boomLoaded : Loaded Unit :=
  { program := boomProgram, natives := [] }

def boomCall : CallInto :=
  { target := 0, callee := 0, args := [], pos := .endOfInput }

def boomError : RuntimeError :=
  { cause := .divisionByZero, pos := .endOfInput }

theorem outermost_boom : boomProgram.Outermost 0 :=
  (wellNested_of_parse parse_boomTokens).globals List.mem_cons_self

theorem quiet_boom : boomProgram.Quiet 0 := by
  have hnone : boomProgram.mentionsOf 0 = [] := rfl
  intro g hg
  rcases Relation.ReflTransGen.cases_head hg with rfl | ⟨h, ⟨m, hm, -⟩, -⟩
  · rw [hnone]
    exact admitted_nil
  · rw [hnone] at hm
    cases hm

/-- At every point of a session where no task waits on the variable, the await would do what the
assignment does, and an error of the call would be the cause of a failed task. -/
def Loaded.AwaitsLikeCalls {σ : Type} (l : Loaded σ) (host : σ) : Prop :=
  forall fuel work m, l.Reaches host ⟨fuel, work, m⟩ ->
    forall c pos pos', l.program.Outermost c.callee -> l.program.Quiet c.callee ->
      (m.tasksFor l.program c.target).bind (·.find? c.target) = none ->
      (l.assignCall fuel c pos m).Matches (fun _ _ => True) Machine.SameBare False
        (l.awaitCall fuel c pos' m) ∧
      (forall e m', l.callArguments fuel c m = .failed e m' -> l.awaitCall fuel c pos' m = .failed e m') ∧
      forall values m₁ e m₂, l.callArguments fuel c m = .done values m₁ ->
        l.invoke fuel c.callee values c.pos m₁ = .failed e m₂ ->
        exists m₃, l.awaitCall fuel c pos' m = .failed (e.ofTask l.program c.callee pos') m₃

end Boom
end Scriptlet
