import Scriptlet.Proofs.Evaluation.ActiveOwners
import Scriptlet.Proofs.Evaluation.ResultTypes
import Scriptlet.Proofs.Evaluation.Walk

/-!
# Types of tasks

A call yields what its function declares, and an async statement starts only functions that
declare the type of its target.  So a task whose call ended well has a value for the target,
at every point of a session, and an await that finds it has nothing to complain of.  The only
errors of an await are that there is no task and that the task has failed.
-/

namespace Scriptlet

def Machine.EachTask {σ ρ : Type} (good : PendingTask ρ -> Prop) (m : Machine σ ρ) : Prop :=
  forall tasks, tasks ∈ m.sets -> forall task, task ∈ tasks.pending -> good task

def PendingTask.Fills (p : Program) (task : PendingTask) : Prop :=
  forall result, task.result = .ok result ->
    exists v, result = some v ∧ v.type = (p.variableAt task.target).type

def Machine.TasksFill {σ : Type} (p : Program) (m : Machine σ) : Prop :=
  m.EachTask (·.Fills p)

/-!
# Sets of tasks
-/

section Sets

variable {σ ρ : Type} {good : PendingTask ρ -> Prop} {p : Program} {m m' : Machine σ ρ}

theorem Machine.eachTask_empty (hframes : m.frames = []) (htasks : m.tasks = .empty) :
    m.EachTask good := by
  rw [EachTask, sets, hframes, htasks]
  intro tasks hset task htask
  cases List.mem_singleton.mp hset
  cases htask

namespace Machine.EachTask

theorem mono {good' : PendingTask ρ -> Prop} (h : m.EachTask good)
    (himp : forall task, good task -> good' task) : m.EachTask good' :=
  fun tasks htasks task htask => himp task (h tasks htasks task htask)

variable (h : m.EachTask good)

include h

theorem updateTasks? {id : VarId} {change : TaskList ρ -> TaskList ρ}
    (hchange : forall tasks : TaskList ρ, (forall task, task ∈ tasks.pending -> good task) ->
      forall task, task ∈ (change tasks).pending -> good task)
    (hupdate : m.updateTasks? p id change = some m') : m'.EachTask good := by
  rcases sets_updateTasks? hupdate with ⟨changed, before, after, -, hsets, hsets'⟩
  rw [EachTask, hsets, List.forall_mem_append, List.forall_mem_cons] at h
  rw [EachTask, hsets', List.forall_mem_append, List.forall_mem_cons]
  exact ⟨h.1, hchange changed h.2.1, h.2.2⟩

theorem insert {id : VarId} {name : VarId -> String} {task : PendingTask ρ} (htask : good task)
    (hupdate : m.updateTasks? p id (·.insert name task) = some m') : m'.EachTask good := by
  refine h.updateTasks? ?_ hupdate
  intro tasks htasks other hother
  rcases TaskList.mem_replace hother with rfl | hother
  · exact htask
  · exact htasks other hother

theorem erase {id target : VarId} (hupdate : m.updateTasks? p id (·.erase target) = some m') :
    m'.EachTask good :=
  h.updateTasks? (fun _ htasks task htask => htasks task (List.mem_of_mem_eraseP htask)) hupdate

theorem store? {id : VarId} {v : Value} (hstore : m.store? p id v = some m') :
    m'.EachTask good := by
  rw [EachTask, sets_store? hstore]
  exact h

theorem push {frame : Frame ρ} (hframe : frame.tasks = .empty) :
    (m.push frame).EachTask good := by
  have hsets := List.forall_mem_cons.mp h
  have hnew : forall task, task ∈ frame.tasks.pending -> good task := by
    rw [hframe]
    exact fun _ htask => nomatch htask
  exact List.forall_mem_cons.mpr ⟨hsets.1, List.forall_mem_cons.mpr ⟨hnew, hsets.2⟩⟩

theorem pop (name : VarId -> String) : (m.pop name).EachTask good := by
  unfold Machine.pop
  cases hframes : m.frames with
  | nil => exact h
  | cons frame rest =>
      rw [EachTask, sets, hframes, List.map_cons, List.forall_mem_cons, List.forall_mem_cons] at h
      exact List.forall_mem_cons.mpr ⟨h.1, h.2.2⟩

theorem drained : Machine.EachTask good { m with tasks := .empty } := by
  have hempty : forall task, task ∈ (TaskList.empty : TaskList ρ).pending -> good task :=
    fun _ htask => nomatch htask
  exact List.forall_mem_cons.mpr ⟨hempty, (List.forall_mem_cons.mp h).2⟩

theorem find? {id : VarId} {task : PendingTask ρ}
    (htask : (m.tasksFor p id).bind (·.find? id) = some task) : task.target = id ∧ good task := by
  rcases Option.bind_eq_some_iff.mp htask with ⟨tasks, htasks, hfind⟩
  refine ⟨by simpa using List.find?_some hfind, ?_⟩
  exact h tasks (mem_sets_of_tasksFor htasks) task (List.mem_of_find?_eq_some hfind)

end Machine.EachTask
end Sets

/-!
# Calls of a program
-/

section Calls

variable {σ : Type}

def CallsFill (p : Program) (invoke : Invoke σ) : Prop :=
  forall f values pos, Keeps (Machine.TasksFill p) (invoke f values pos)
    fun result => yieldType result = (p.function f).result

variable {p : Program} {invoke : Invoke σ}

theorem fills_of_start {target : VarId} {f : FunId} {arity : Nat}
    (hfits : (Mention.start target f arity).FitsSomewhere p) {result : Option Value}
    (hresult : yieldType result = (p.function f).result) :
    exists v, result = some v ∧ v.type = (p.variableAt target).type := by
  rcases hfits with ⟨owners, -, -, htype, hsome⟩
  cases result with
  | none => exact absurd hresult.symm hsome
  | some v => exact ⟨v, rfl, hresult.trans htype⟩

theorem CallsFill.asTask (hcalls : CallsFill p invoke) (f : FunId) (values : List Value) (pos : Pos) :
    Keeps (Machine.TasksFill p) (Eval.asTask (invoke f values pos)) fun answer =>
      forall result, answer = .ok result -> yieldType result = (p.function f).result := by
  intro m hm
  have hcall := hcalls f values pos m.forTask (Machine.eachTask_empty rfl rfl)
  unfold Eval.asTask
  cases houtcome : invoke f values pos m.forTask with
  | done value task =>
      rw [houtcome] at hcall
      refine ⟨?_, hm⟩
      intro result hresult
      cases hresult
      exact hcall.1
  | failed e task =>
      refine ⟨?_, hm⟩
      exact nofun
  | unfinished => trivial

theorem CallsFill.startCall (hcalls : CallsFill p invoke) {target : VarId} {f : FunId} {arity : Nat}
    (hfits : (Mention.start target f arity).FitsSomewhere p) (values : List Value) (pos : Pos) :
    KeepsAll (Machine.TasksFill p) (Eval.startCall p invoke pos target f values) := by
  apply (keeps_checkTarget target pos).bind
  intro _ _
  apply (hcalls.asTask f values pos).bind
  intro answer hanswer m hm
  unfold Eval.addTask
  split
  · rename_i m' hupdate
    refine ⟨trivial, Machine.EachTask.insert hm ?_ hupdate⟩
    exact fun result hresult => fills_of_start hfits (hanswer result hresult)
  · exact hm

theorem keepsFill_awaitTask (p : Program) (pos : Pos) (target : VarId) :
    KeepsAll (Machine.TasksFill p) (Eval.awaitTask p pos target : Eval σ Unit) := by
  have htake : KeepsAll (Machine.TasksFill p) (Eval.takeTask p target pos : Eval σ PendingTask) := by
    intro m hm
    unfold Eval.takeTask
    split
    · rename_i task m' htask hupdate
      exact ⟨trivial, Machine.EachTask.erase hm hupdate⟩
    · exact hm
  apply htake.bind
  intro task _
  cases task.result with
  | error e => exact keeps_failAt _ pos
  | ok result =>
      cases result with
      | none => exact keeps_mismatch _ _ _ pos
      | some v => exact keeps_writeVar_of (fun _ hm hstore => Machine.EachTask.store? hm hstore) pos

theorem CallsFill.actions (hcalls : CallsFill p invoke) :
    ActionsKeep p invoke (Mention.FitsSomewhere p) (Machine.TasksFill p) where
  raise := fun _ _ hm => hm
  reads := fun pos _ => keeps_readVar _ pos
  writes := fun _ pos _ _ => keeps_writeVar_of (fun _ hm hstore => Machine.EachTask.store? hm hstore) pos
  calls := fun pos _ _ => (hcalls _ _ pos).mono fun _ _ => trivial
  starts := fun pos hfits _ => hcalls.startCall hfits _ pos
  awaits := fun pos _ => keepsFill_awaitTask p pos _
  exhausted := fun _ _ => trivial

end Calls

/-!
# Points of a session
-/

section Points

variable {σ : Type} {l : Loaded σ}

structure Loaded.Preserves (l : Loaded σ) (inv : Machine σ -> Prop) : Prop where
  acts : forall fuel,
    ActionsKeep l.program (l.invoke fuel) (Mention.FitsSomewhere l.program) inv
  task : forall m, inv m -> inv m.forTask
  push : forall f values m, inv m -> inv (m.push (Eval.callFrame l.program f values))

theorem EvalPoint.Step.keeps {inv : Machine σ -> Prop} (hkeeps : l.Preserves inv) {a b : EvalPoint σ}
    (hstep : a.Step l b) (hfits : a.work.Fits l.program) (ha : inv a.machine) : inv b.machine := by
  have hacts := hkeeps.acts
  cases hstep with
  | right hleft =>
      have hfit : l.program.Fit _ := hfits
      exact (((hacts _).keeps_expr _ hfit.left).of_done ha hleft).2
  | callee hargs | stmtCallee hargs =>
      have hfit : l.program.Fit _ := hfits
      exact (((hacts _).keeps_arguments _ _ _ _ hfit.tail).of_done ha hargs).2
  | nextArgument harg =>
      have hfit : l.program.Fit _ := hfits.2
      exact (((hacts _).keeps_expr _ hfit.left).of_done ha harg).2
  | next hs =>
      have hfit : l.program.Fit _ := hfits
      exact (((hacts _).keeps_stmt _ _ hfit.left).of_done ha hs).2
  | branch hcond | round hcond =>
      have hfit : l.program.Fit _ := hfits
      exact (((hacts _).keeps_condition _ hfit.left).of_done ha hcond).2
  | nextRound hcond hbody =>
      have hfit : l.program.Fit _ := hfits
      have htested := ((hacts _).keeps_condition _ hfit.left).of_done ha hcond
      exact (((hacts _).keeps_stmts _ _ hfit.right).of_done htested.2 hbody).2
  | task hargs =>
      have hfit : l.program.Fit _ := hfits
      exact hkeeps.task _ (((hacts _).keeps_arguments _ _ _ _ hfit.tail).of_done ha hargs).2
  | body _ => exact hkeeps.push _ _ _ ha
  | _ => exact ha

theorem Loaded.Reaches.keeps {inv : Machine σ -> Prop} (hkeeps : l.Preserves inv)
    (hwell : l.program.WellFormed) {host : σ} (hbetween : forall m, l.Between host m -> inv m)
    {point : EvalPoint σ} (h : l.Reaches host point) : inv point.machine := by
  induction h with
  | run fuel hm => exact hbetween _ hm
  | call fuel hm _ hcheck =>
      exact ((keeps_checkArguments _ _ _ _).of_done (hbetween _ hm) hcheck).2
  | step hreaches hstep ih => exact hstep.keeps hkeeps (hreaches.safe hwell).fits ih

end Points

section Sessions

variable {σ : Type} {l : Loaded σ} (hwell : l.program.WellFormed)

include hwell

theorem callsFill_invoke (fuel : Nat) : CallsFill l.program (l.invoke fuel) := by
  induction fuel with
  | zero => exact fun _ _ _ _ _ => trivial
  | succ fuel ih =>
      intro f values pos
      have hkeeps : KeepsAll (Machine.TasksFill l.program) (l.invoke (fuel + 1) f values pos) := by
        apply keeps_invoke
        · exact fun m host hm => hm
        · intro block hblock
          have hbody := ih.actions.keeps_stmts fuel _ (hwell.body hblock).2
          have hpop : forall m : Machine σ, m.TasksFill l.program ->
              (m.pop (Eval.variableName l.program)).TasksFill l.program :=
            fun _ hm => Machine.EachTask.pop hm _
          exact keeps_inFrame (fun _ hm => Machine.EachTask.push hm rfl) hpop hbody
      exact hkeeps.strengthen fun _ _ _ _ hcall => yieldType_of_invoke hcall

theorem tasksFill_between {host : σ} {m : Machine σ} (hm : l.Between host m) :
    m.TasksFill l.program := by
  induction hm with
  | start => exact Machine.eachTask_empty rfl rfl
  | run fuel _ hrun ih =>
      have hroot := (callsFill_invoke hwell fuel).actions.keeps_stmts fuel _ hwell.root.fit
      have hkeeps : KeepsAll (Machine.TasksFill l.program) (l.run fuel) := by
        apply hroot.bind
        intro flow _ m hm
        exact ⟨trivial, Machine.EachTask.drained hm⟩
      exact hkeeps.of_state ih hrun
  | @call m m' fuel f args _ _ hcall ih =>
      have hkeeps : KeepsAll (Machine.TasksFill l.program) (l.callFunction fuel f args) := by
        apply Keeps.ite
        · exact fun _ => keeps_failAt _ _
        · intro _
          apply (keeps_checkArguments _ _ _ args).bind
          exact fun _ _ => (callsFill_invoke hwell fuel _ args _).mono fun _ _ => trivial
      exact hkeeps.of_state ih hcall

theorem Loaded.Reaches.tasksFill {host : σ} {point : EvalPoint σ} (h : l.Reaches host point) :
    point.machine.TasksFill l.program := by
  refine h.keeps ⟨?_, ?_, ?_⟩ hwell fun m hm => tasksFill_between hwell hm
  · exact fun fuel => (callsFill_invoke hwell fuel).actions
  · exact fun m _ => Machine.eachTask_empty rfl rfl
  · exact fun f values m hm => Machine.EachTask.push hm rfl

end Sessions

/-!
# Awaits
-/

section Await

variable {σ ρ : Type} {p : Program} {target : VarId} {pos : Pos}

/-- Why an await may fail: no task waits, or the call of the task has failed. -/
inductive AwaitFails (p : Program) (errs : ρ -> RuntimeError -> Prop) (m : Machine σ ρ)
    (target : VarId) (pos : Pos) : RuntimeError -> Prop where
  | unknown : (m.tasksFor p target).bind (·.find? target) = none ->
      AwaitFails p errs m target pos
        { cause := .unknownAsyncTarget (p.variableAt target).name, pos := pos }
  | failed {task : PendingTask ρ} {e : RuntimeError} :
      (m.tasksFor p target).bind (·.find? target) = some task -> errs task.result e ->
      AwaitFails p errs m target pos { cause := .taskFailed task.function e.cause e.pos, pos := pos }

theorem AwaitFails.ne_typeMismatch {errs : ρ -> RuntimeError -> Prop} {m : Machine σ ρ}
    {e : RuntimeError} (h : AwaitFails p errs m target pos e) (mismatch : TypeMismatch) :
    e.cause ≠ .typeMismatch mismatch := by
  cases h <;> exact nofun

theorem deliver_fails {m m' : Machine σ ρ} {function : String} {result : TaskResult}
    (hfinds : m.Finds p target)
    (hfills : forall r, result = .ok r ->
      exists v, r = some v ∧ v.type = (p.variableAt target).type)
    {e : RuntimeError} (h : Eval.deliver p pos target function result m = .failed e m') :
    exists cause : RuntimeError, result = .error cause ∧
      e = { cause := .taskFailed function cause.cause cause.pos, pos := pos } := by
  cases result with
  | error cause =>
      cases h
      exact ⟨cause, rfl, rfl⟩
  | ok r =>
      rcases hfills r rfl with ⟨v, rfl, htype⟩
      rcases Option.isSome_iff_exists.mp (hfinds.store v) with ⟨stored, hstored⟩
      simp only [Eval.deliver, Eval.writeVar, htype, hstored, if_true] at h
      cases h

theorem takeTask_done {m m' : Machine σ ρ} {task : PendingTask ρ}
    (h : Eval.takeTask p target pos m = .done task m') :
    (m.tasksFor p target).bind (·.find? target) = some task ∧ m'.Finds p target := by
  unfold Eval.takeTask at h
  split at h
  · rename_i found taken hfound htaken
    cases h
    rcases Option.bind_eq_some_iff.mp hfound with ⟨tasks, htasks, -⟩
    have howner := Machine.isSome_tasksFor_iff.mp (Option.isSome_of_eq_some htasks)
    exact ⟨hfound, Machine.finds_of_owner (owners_updateTasks? htaken ▸ howner)⟩
  · cases h

theorem takeTask_failed {m m' : Machine σ ρ} {e : RuntimeError}
    (h : Eval.takeTask p target pos m = .failed e m') :
    (m.tasksFor p target).bind (·.find? target) = none ∧
      e = { cause := .unknownAsyncTarget (p.variableAt target).name, pos := pos } := by
  unfold Eval.takeTask at h
  cases htask : (m.tasksFor p target).bind (·.find? target) with
  | none =>
      rw [htask] at h
      cases h
      exact ⟨rfl, rfl⟩
  | some task =>
      rcases Option.bind_eq_some_iff.mp htask with ⟨tasks, htasks, -⟩
      have hupdate := (Machine.finds_of_tasksFor htasks).update (·.erase target)
      rcases Option.isSome_iff_exists.mp hupdate with ⟨taken, htaken⟩
      simp only [htask, htaken] at h
      cases h

theorem Machine.TasksFill.awaitTask_fails {m m' : Machine σ} (hm : m.TasksFill p) {e : RuntimeError}
    (h : Eval.awaitTask p pos target m = .failed e m') :
    AwaitFails p (fun result e => result = .error e) m target pos e := by
  rw [Eval.awaitTask, Run.bind_apply] at h
  cases htake : (Eval.takeTask p target pos : Eval σ PendingTask) m with
  | failed e' m'' =>
      rw [htake] at h
      cases h
      rcases takeTask_failed htake with ⟨hnone, rfl⟩
      exact .unknown hnone
  | unfinished =>
      rw [htake] at h
      cases h
  | done task taken =>
      rw [htake] at h
      rcases takeTask_done htake with ⟨htask, hfinds⟩
      rcases Machine.EachTask.find? hm htask with ⟨rfl, hfills⟩
      rcases deliver_fails hfinds hfills h with ⟨cause, hresult, rfl⟩
      exact .failed htask hresult

end Await
end Scriptlet
