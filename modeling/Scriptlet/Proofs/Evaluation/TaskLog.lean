import Scriptlet.Proofs.Evaluation.ActiveOwners
import Scriptlet.Proofs.Evaluation.Shapes
import Scriptlet.Proofs.Evaluation.Tracing

/-!
# What the log shows

The sets of tasks are what the log says: a task waits on a variable if the last event of the
set and the variable has started it.  So an await finds the task of the most recent start
that no await has asked for since, or none.
-/

namespace Scriptlet

variable {ρ : Type}

/-- The most recent task of a set into a variable, unless an await has asked for it since. -/
def pendingIn {σ : Type} (p : Program) (set : Nat) (target : VarId) :
    List (TaskEvent σ) -> Option (StartedTask σ)
  | [] => none
  | e :: log =>
      if e.setOf p = some set ∧ e.target = target then e.started?
      else pendingIn p set target log

theorem pendingIn_append {σ : Type} {p : Program} {set : Nat} {target : VarId}
    {news log : List (TaskEvent σ)} (h : forall e, e ∈ news -> e.setOf p ≠ some set) :
    pendingIn p set target (news ++ log) = pendingIn p set target log := by
  induction news with
  | nil => rfl
  | cons e rest ih =>
      rw [List.cons_append, pendingIn, if_neg fun hon => h e List.mem_cons_self hon.1]
      exact ih fun e' he' => h e' (List.mem_cons_of_mem e he')

/-- The answer is that of an await when the given task is pending. -/
structure AwaitRight {σ : Type} (p : Program) (target : VarId) (pos : Pos)
    (pending : Option (StartedTask σ)) (answer : Except RuntimeError (Option Value)) : Prop where
  delivers : forall {found}, answer = .ok found -> exists task value,
    pending = some task ∧ task.result = .ok (some value) ∧ found = some value
  refuses : answer = .error
      { cause := .unknownAsyncTarget (p.variableAt target).name, pos := pos } <-> pending = none

/-!
# Lists of tasks
-/

namespace TaskList

variable {σ : Type} {p : Program} {log : List (TaskEvent σ)} {set : Nat}

theorem find?_replace (task : PendingTask ρ) (pending : List (PendingTask ρ)) (target : VarId) :
    (replace task pending).find? (·.target == target) =
      if task.target = target then some task else pending.find? (·.target == target) := by
  induction pending with
  | nil =>
      by_cases htask : task.target = target
      · simp [replace, htask]
      · simp [replace, htask]
  | cons other rest ih =>
      rw [replace]
      by_cases hother : other.target = task.target
      · rw [if_pos hother]
        by_cases htask : task.target = target
        · simp [htask]
        · have hne : other.target ≠ target := hother.trans_ne htask
          simp [htask, hne]
      · rw [if_neg hother]
        by_cases htarget : other.target = target
        · have htask : task.target ≠ target := fun htask => hother (htarget.trans htask.symm)
          simp [htarget, htask]
        · simpa [List.find?_cons, htarget] using ih

theorem nodup_replace {task : PendingTask ρ} {pending : List (PendingTask ρ)}
    (h : (pending.map (·.target)).Nodup) : ((replace task pending).map (·.target)).Nodup := by
  induction pending with
  | nil => exact List.nodup_singleton _
  | cons other rest ih =>
      rw [List.map_cons, List.nodup_cons] at h
      rw [replace]
      by_cases hother : other.target = task.target
      · rw [if_pos hother, List.map_cons, ← hother]
        exact List.nodup_cons.mpr h
      · rw [if_neg hother, List.map_cons, List.nodup_cons]
        refine ⟨?_, ih h.2⟩
        intro hmem
        rcases List.mem_map.mp hmem with ⟨found, hfound, htarget⟩
        rcases mem_replace hfound with rfl | hrest
        · exact hother htarget.symm
        · exact h.1 (htarget ▸ List.mem_map_of_mem hrest)

theorem find?_eraseP {pending : List (PendingTask ρ)} (h : (pending.map (·.target)).Nodup)
    (erased target : VarId) :
    (pending.eraseP (·.target == erased)).find? (·.target == target) =
      if erased = target then none else pending.find? (·.target == target) := by
  induction pending with
  | nil => simp
  | cons other rest ih =>
      rw [List.map_cons, List.nodup_cons] at h
      by_cases hother : other.target = erased
      · rw [List.eraseP_cons_of_pos (by simpa using hother)]
        by_cases htarget : erased = target
        · rw [if_pos htarget, List.find?_eq_none]
          intro found hfound hsame
          rw [hother, htarget, ← beq_iff_eq.mp hsame] at h
          exact h.1 (List.mem_map_of_mem hfound)
        · have hne : other.target ≠ target := hother.trans_ne htarget
          simp [htarget, hne]
      · rw [List.eraseP_cons_of_neg (by simpa using hother)]
        by_cases htarget : other.target = target
        · have hne : erased ≠ target := fun heq => hother (htarget.trans heq.symm)
          simp [htarget, hne]
        · simpa [List.find?_cons, htarget] using ih h.2

/-- Each variable has at most one task, and it is the one that the log has pending. -/
structure Shows (p : Program) (log : List (TaskEvent σ)) (set : Nat) (tasks : TaskList) : Prop where
  distinct : (tasks.pending.map (·.target)).Nodup
  found : forall target,
    (tasks.find? target).map (·.result) = (pendingIn p set target log).map (·.result)

variable {tasks : TaskList}

theorem Shows.congr {log' : List (TaskEvent σ)} (h : tasks.Shows p log set)
    (hlog : forall target, pendingIn p set target log' = pendingIn p set target log) :
    tasks.Shows p log' set where
  distinct := h.distinct
  found := fun target => (hlog target).symm ▸ h.found target

theorem Shows.insert (h : tasks.Shows p log set) (name : VarId -> String) {task : PendingTask}
    {e : TaskEvent σ} {started : StartedTask σ} (hset : e.setOf p = some set)
    (htarget : e.target = task.target) (hstarted : e.started? = some started)
    (hresult : started.result = task.result) :
    (tasks.insert name task).Shows p (e :: log) set where
  distinct := nodup_replace h.distinct
  found := by
    intro target
    have hfind : (tasks.insert name task).find? target = _ :=
      find?_replace task tasks.pending target
    rw [hfind, pendingIn, htarget]
    by_cases hsame : task.target = target
    · rw [if_pos hsame, if_pos ⟨hset, hsame⟩, hstarted, Option.map_some, Option.map_some, hresult]
    · rw [if_neg hsame, if_neg fun hon => hsame hon.2]
      exact h.found target

theorem Shows.erase (h : tasks.Shows p log set) {e : TaskEvent σ} (hset : e.setOf p = some set)
    (hawaited : e.started? = none) : (tasks.erase e.target).Shows p (e :: log) set where
  distinct := h.distinct.sublist (tasks.pending.eraseP_sublist.map _)
  found := by
    intro target
    have hfind : (tasks.erase e.target).find? target = _ :=
      find?_eraseP h.distinct e.target target
    rw [hfind, pendingIn]
    by_cases hsame : e.target = target
    · rw [if_pos hsame, if_pos ⟨hset, hsame⟩, hawaited]
      rfl
    · rw [if_neg hsame, if_neg fun hon => hsame hon.2]
      exact h.found target

theorem shows_empty (h : forall e, e ∈ log -> e.setOf p ≠ some set) : empty.Shows p log set where
  distinct := List.nodup_nil
  found := by
    intro target
    have hnone : pendingIn p set target (log ++ []) = pendingIn p set target [] :=
      pendingIn_append h
    rw [List.append_nil] at hnone
    rw [hnone]
    rfl

end TaskList

/-!
# Machines
-/

/-- The frame of a numbered call, with the tasks that the log has pending in it. -/
structure Frame.Shows {σ : Type} (p : Program) (log : List (TaskEvent σ)) (frame : Frame)
    (call : NumberedCall) : Prop where
  shape : frame.IsOf p call.function
  tasks : frame.tasks.Shows p log call.number

/-- All sets of the scene hold the tasks that the log has pending in them. -/
structure Machine.Shows {σ : Type} (p : Program) (log : List (TaskEvent σ)) (scene : Scene)
    (m : Machine σ) : Prop where
  globals : m.globals.length = p.globalCount
  frames : List.Forall₂ (Frame.Shows p log) m.frames scene.stack
  tasks : m.tasks.Shows p log scene.home

def Scene.numbers (scene : Scene) : List Nat :=
  scene.home :: scene.stack.map (·.number)

section Numbered

variable {R R' : Frame ρ -> NumberedCall -> Prop} {frames : List (Frame ρ)}
  {stack : List NumberedCall}
  (h : List.Forall₂ R frames stack)

include h

theorem numbered_congr (himp : forall frame call, call ∈ stack -> R frame call -> R' frame call) :
    List.Forall₂ R' frames stack := by
  induction h with
  | nil => exact .nil
  | @cons frame call _ _ hfirst _ ih =>
      refine .cons (himp frame call List.mem_cons_self hfirst) (ih ?_)
      exact fun frame' other hother => himp frame' other (List.mem_cons_of_mem call hother)

theorem numbered_find (howner : forall {frame call}, R frame call -> frame.owner = call.function)
    (owner : FunId) :
    Option.Rel R (frames.find? (·.owner == owner)) (stack.find? (·.function == owner)) := by
  induction h with
  | nil => exact .none
  | @cons frame call _ _ hfirst _ ih =>
      rw [List.find?_cons, List.find?_cons, howner hfirst]
      cases call.function == owner with
      | true => exact .some hfirst
      | false => exact ih

theorem numbered_updateFrame (howner : forall {frame call}, R frame call -> frame.owner = call.function)
    {owner : FunId} {set : Nat} {change : Frame ρ -> Frame ρ} {frames' : List (Frame ρ)}
    (hfind : (stack.find? (·.function == owner)).map (·.number) = some set)
    (hnodup : (stack.map (·.number)).Nodup)
    (hother : forall frame call, R frame call -> call.number ≠ set -> R' frame call)
    (hchange : forall frame call, R frame call -> call.number = set -> R' (change frame) call)
    (hupdate : Machine.updateFrame owner change frames = some frames') :
    List.Forall₂ R' frames' stack := by
  induction h generalizing frames' with
  | nil => cases hupdate
  | @cons frame call _ stack hfirst hrest ih =>
      rw [List.map_cons, List.nodup_cons] at hnodup
      rw [Machine.updateFrame, howner hfirst] at hupdate
      rw [List.find?_cons] at hfind
      by_cases hof : call.function = owner
      · rw [if_pos hof] at hupdate
        rw [beq_iff_eq.mpr hof] at hfind
        cases hupdate
        cases hfind
        refine .cons (hchange frame call hfirst rfl) (numbered_congr hrest ?_)
        intro frame' other hmem hother'
        refine hother frame' other hother' ?_
        exact fun heq => hnodup.1 (List.mem_map.mpr ⟨other, hmem, heq⟩)
      · rw [if_neg hof] at hupdate
        rw [beq_eq_false_iff_ne.mpr hof] at hfind
        rcases Option.map_eq_some_iff.mp hupdate with ⟨rest, hupdated, hcons⟩
        cases hcons
        have hne : call.number ≠ set := by
          rcases Option.map_eq_some_iff.mp hfind with ⟨other, hother, hnumber⟩
          intro heq
          rw [heq, ← hnumber] at hnodup
          exact hnodup.1 (List.mem_map_of_mem (List.mem_of_find?_eq_some hother))
        exact .cons (hother frame call hfirst hne) (ih hfind hnodup.2 hupdated)

theorem numbered_changeFrame {owner : FunId} {change : Frame ρ -> Frame ρ}
    {frames' : List (Frame ρ)}
    (hchange : forall frame call, R frame call -> R (change frame) call)
    (hupdate : Machine.updateFrame owner change frames = some frames') :
    List.Forall₂ R frames' stack := by
  induction h generalizing frames' with
  | nil => cases hupdate
  | @cons frame call _ _ hfirst hrest ih =>
      rw [Machine.updateFrame] at hupdate
      by_cases howner : frame.owner = owner
      · rw [if_pos howner] at hupdate
        cases hupdate
        exact .cons (hchange frame call hfirst) hrest
      · rw [if_neg howner] at hupdate
        rcases Option.map_eq_some_iff.mp hupdate with ⟨rest, hupdated, hcons⟩
        cases hcons
        exact .cons hfirst (ih hupdated)

end Numbered

section Frames

variable {σ : Type} {p : Program} {log log' : List (TaskEvent σ)} {frames : List Frame}
  {stack : List NumberedCall}

theorem Frame.Shows.congr {frame : Frame} {call : NumberedCall} (h : frame.Shows p log call)
    (hlog : forall target,
      pendingIn p call.number target log' = pendingIn p call.number target log) :
    frame.Shows p log' call :=
  ⟨h.shape, h.tasks.congr hlog⟩

theorem shows_frames_congr (h : List.Forall₂ (Frame.Shows p log) frames stack)
    (hlog : forall call, call ∈ stack -> forall target,
      pendingIn p call.number target log' = pendingIn p call.number target log) :
    List.Forall₂ (Frame.Shows p log') frames stack :=
  numbered_congr h fun _ call hcall hframe => hframe.congr (hlog call hcall)

end Frames

namespace Machine

/-- The frames belong to the calls of the scene, and the set of the globals to its home. -/
structure Numbered {σ : Type} (R : Frame ρ -> NumberedCall -> Prop)
    (T : Nat -> TaskList ρ -> Prop) (scene : Scene) (m : Machine σ ρ) : Prop where
  frames : List.Forall₂ R m.frames scene.stack
  tasks : T scene.home m.tasks

section Numbered

variable {σ : Type} {p : Program} {scene : Scene} {m m' : Machine σ ρ}
  {R R' : Frame ρ -> NumberedCall -> Prop} {T T' : Nat -> TaskList ρ -> Prop}
  (h : m.Numbered R T scene)

include h

theorem Numbered.tasksFor (htasks : forall {frame call}, R frame call -> T call.number frame.tasks)
    (howner : forall {frame call}, R frame call -> frame.owner = call.function) (id : VarId) :
    Option.Rel T (scene.setFor p id) (m.tasksFor p id) := by
  rw [Scene.setFor, Machine.tasksFor]
  cases (p.variableAt id).owner with
  | none => exact .some h.tasks
  | some owner =>
      have hfind := numbered_find h.frames howner owner
      simp only [Machine.frameOf]
      generalize m.frames.find? (·.owner == owner) = frame at hfind
      generalize scene.stack.find? (·.function == owner) = call at hfind
      cases hfind with
      | none => exact .none
      | some hframe => exact .some (htasks hframe)

theorem Numbered.store? (hslot : forall {frame call}, R frame call -> forall slot value,
      R (frame.setSlot slot value) call) {id : VarId} {value : Value}
    (hstore : m.store? p id value = some m') : m'.Numbered R T scene := by
  rw [Machine.store?] at hstore
  cases hof : (p.variableAt id).owner with
  | none =>
      rw [hof] at hstore
      cases hstore
      exact ⟨h.frames, h.tasks⟩
  | some owner =>
      rw [hof] at hstore
      rcases Option.map_eq_some_iff.mp hstore with ⟨frames, hframes, hm'⟩
      cases hm'
      exact ⟨numbered_changeFrame h.frames (fun _ _ hframe => hslot hframe _ value) hframes, h.tasks⟩

variable (howner : forall {frame call}, R frame call -> frame.owner = call.function)

include howner

theorem Numbered.setFor_of_updateTasks? {id : VarId} {change : TaskList ρ -> TaskList ρ}
    (hupdate : m.updateTasks? p id change = some m') : exists set, scene.setFor p id = some set := by
  rw [Machine.updateTasks?] at hupdate
  rw [Scene.setFor]
  cases hof : (p.variableAt id).owner with
  | none => exact ⟨_, rfl⟩
  | some owner =>
      rw [hof] at hupdate
      rcases Option.map_eq_some_iff.mp hupdate with ⟨frames, hframes, -⟩
      have hfind := numbered_find h.frames howner owner
      cases hcall : scene.stack.find? (·.function == owner) with
      | some call => exact ⟨call.number, by simp only [hcall, Option.map_some]⟩
      | none =>
          rw [hcall] at hfind
          cases hnone : m.frames.find? (·.owner == owner) with
          | none =>
              rw [updateFrame_eq_none hnone] at hframes
              cases hframes
          | some frame =>
              rw [hnone] at hfind
              cases hfind

theorem Numbered.updateTasks? (hnodup : scene.numbers.Nodup) {id : VarId} {set : Nat}
    (hset : scene.setFor p id = some set) {change : TaskList ρ -> TaskList ρ}
    (hother : forall frame call, R frame call -> call.number ≠ set -> R' frame call)
    (hchange : forall frame call, R frame call -> call.number = set ->
      R' (frame.mapTasks change) call)
    (htasks : forall tasks, T scene.home tasks -> scene.home ≠ set -> T' scene.home tasks)
    (hhome : forall tasks, T set tasks -> T' set (change tasks))
    (hupdate : m.updateTasks? p id change = some m') : m'.Numbered R' T' scene := by
  have hapart := (List.nodup_cons.mp hnodup).1
  rw [Machine.updateTasks?] at hupdate
  rw [Scene.setFor] at hset
  cases hof : (p.variableAt id).owner with
  | none =>
      rw [hof] at hupdate hset
      cases hupdate
      cases hset
      refine ⟨numbered_congr h.frames ?_, hhome _ h.tasks⟩
      intro frame call hcall hframe
      exact hother frame call hframe fun heq => hapart (List.mem_map.mpr ⟨call, hcall, heq⟩)
  | some owner =>
      rw [hof] at hupdate hset
      rcases Option.map_eq_some_iff.mp hupdate with ⟨frames, hframes, hm'⟩
      cases hm'
      refine ⟨?_, htasks _ h.tasks ?_⟩
      · exact numbered_updateFrame h.frames howner hset (List.nodup_cons.mp hnodup).2 hother hchange
          hframes
      · intro heq
        rcases Option.map_eq_some_iff.mp hset with ⟨call, hfind, hnumber⟩
        exact hapart
          (List.mem_map.mpr ⟨call, List.mem_of_find?_eq_some hfind, hnumber.trans heq.symm⟩)

end Numbered

section Globals

variable {σ : Type} {p : Program} {m m' : Machine σ ρ}

theorem updateTasks?_globals {id : VarId} {change : TaskList ρ -> TaskList ρ}
    (hupdate : m.updateTasks? p id change = some m') : m'.globals = m.globals := by
  rw [Machine.updateTasks?] at hupdate
  cases howner : (p.variableAt id).owner with
  | none =>
      rw [howner] at hupdate
      cases hupdate
      rfl
  | some owner =>
      rw [howner] at hupdate
      rcases Option.map_eq_some_iff.mp hupdate with ⟨frames, -, hm'⟩
      cases hm'
      rfl

theorem length_globals_store? {id : VarId} {value : Value}
    (hstore : m.store? p id value = some m') : m'.globals.length = m.globals.length := by
  rw [Machine.store?] at hstore
  cases howner : (p.variableAt id).owner with
  | none =>
      rw [howner] at hstore
      cases hstore
      exact List.length_set
  | some owner =>
      rw [howner] at hstore
      rcases Option.map_eq_some_iff.mp hstore with ⟨frames, -, hm'⟩
      cases hm'
      rfl

end Globals

variable {σ : Type} {p : Program} {log : List (TaskEvent σ)} {scene : Scene} {m m' : Machine σ}

theorem Shows.numbered (h : m.Shows p log scene) :
    m.Numbered (Frame.Shows p log) (TaskList.Shows p log) scene :=
  ⟨h.frames, h.tasks⟩

theorem Shows.congr {log' : List (TaskEvent σ)} (h : m.Shows p log scene)
    (hlog : forall set, set ∈ scene.numbers -> forall target,
      pendingIn p set target log' = pendingIn p set target log) : m.Shows p log' scene where
  globals := h.globals
  frames := by
    refine shows_frames_congr h.frames fun call hcall => hlog call.number ?_
    exact List.mem_cons_of_mem _ (List.mem_map_of_mem hcall)
  tasks := h.tasks.congr (hlog scene.home List.mem_cons_self)

theorem Shows.tasksFor (h : m.Shows p log scene) (id : VarId) :
    Option.Rel (TaskList.Shows p log) (scene.setFor p id) (m.tasksFor p id) :=
  h.numbered.tasksFor (·.tasks) (·.shape.owner) id

theorem pendingIn_other {e : TaskEvent σ} {set other : Nat} (hset : e.setOf p = some set)
    (hother : other ≠ set) (target : VarId) :
    pendingIn p other target (e :: log) = pendingIn p other target log := by
  rw [pendingIn, if_neg]
  intro hon
  exact hother (Option.some.inj (hon.1.symm.trans hset))

theorem Shows.setFor_of_updateTasks? (h : m.Shows p log scene) {id : VarId}
    {change : TaskList -> TaskList} (hupdate : m.updateTasks? p id change = some m') :
    exists set, scene.setFor p id = some set :=
  h.numbered.setFor_of_updateTasks? (·.shape.owner) hupdate

theorem Shows.updateTasks? (h : m.Shows p log scene) (hnodup : scene.numbers.Nodup) {e : TaskEvent σ}
    (he : e.scene = scene) {set : Nat} (hset : e.setOf p = some set) {change : TaskList -> TaskList}
    (hchange : forall tasks, tasks.Shows p log set -> (change tasks).Shows p (e :: log) set)
    (hupdate : m.updateTasks? p e.target change = some m') : m'.Shows p (e :: log) scene := by
  have hother : forall other, other ≠ set -> forall target,
      pendingIn p other target (e :: log) = pendingIn p other target log :=
    fun other hne => pendingIn_other hset hne
  rw [TaskEvent.setOf, he] at hset
  have hnumbered : m'.Numbered (Frame.Shows p (e :: log)) (TaskList.Shows p (e :: log)) scene := by
    refine h.numbered.updateTasks? (·.shape.owner) hnodup hset ?_ ?_ ?_ hchange hupdate
    · exact fun _ _ hframe hne => hframe.congr (hother _ hne)
    · intro frame call hframe hnumber
      refine ⟨⟨hframe.shape.owner, hframe.shape.slots⟩, ?_⟩
      exact hnumber ▸ hchange _ (hnumber ▸ hframe.tasks)
    · exact fun tasks htasks hne => htasks.congr (hother _ hne)
  exact ⟨updateTasks?_globals hupdate ▸ h.globals, hnumbered.frames, hnumbered.tasks⟩

theorem Shows.store? (h : m.Shows p log scene) {id : VarId} {value : Value}
    (hstore : m.store? p id value = some m') : m'.Shows p log scene := by
  have hnumbered := h.numbered.store?
    (fun hframe slot value => ⟨hframe.shape.setSlot slot value, hframe.tasks⟩) hstore
  exact ⟨(length_globals_store? hstore).trans h.globals, hnumbered.frames, hnumbered.tasks⟩

theorem Shows.shaped (h : m.Shows p log scene) : m.Shaped p where
  globals := h.globals
  frames := by
    have hframes := h.frames
    generalize m.frames = frames at hframes ⊢
    generalize scene.stack = stack at hframes
    induction hframes with
    | nil => exact fun _ hframe => nomatch hframe
    | cons hfirst _ ih =>
        exact List.forall_mem_cons.mpr ⟨⟨rfl, hfirst.shape.owner ▸ hfirst.shape.slots⟩, ih⟩

end Machine

/-!
# Awaits
-/

section Await

variable {σ : Type} {p : Program} {log : List (TaskEvent σ)} {scene : Scene} {target : VarId} {pos : Pos}

def awaitEvent (scene : Scene) (target : VarId) (pos : Pos)
    (answer : Except RuntimeError (Option Value)) : TaskEvent σ :=
  { scene := scene, target := target, change := .awaited pos answer }

/-- The answer is right behind the log, and the machine is what the log shows with the
answer. -/
structure Awaited (p : Program) (log : List (TaskEvent σ)) (scene : Scene) (target : VarId) (pos : Pos)
    (answer : Except RuntimeError (Option Value)) (m : Machine σ) : Prop where
  right : AwaitRight p target pos ((scene.setFor p target).bind (pendingIn p · target log)) answer
  shows : m.Shows p (awaitEvent scene target pos answer :: log) scene

def AwaitEnds (p : Program) (log : List (TaskEvent σ)) (scene : Scene) (target : VarId) (pos : Pos) :
    Outcome RuntimeError (Machine σ) Unit -> Prop
  | .done _ m => Awaited p log scene target pos (.ok (m.read p target)) m
  | .failed e m => Awaited p log scene target pos (.error e) m
  | .unfinished => True

theorem pendingIn_awaitEvent (answer : Except RuntimeError (Option Value)) (set : Nat)
    (other : VarId) :
    pendingIn p set other (awaitEvent scene target pos answer :: log) =
      if scene.setFor p target = some set ∧ target = other then none
      else pendingIn p set other log :=
  rfl

theorem awaitRight_refused :
    AwaitRight p target pos (none : Option (StartedTask σ))
      (.error { cause := .unknownAsyncTarget (p.variableAt target).name, pos := pos }) where
  delivers := fun h => nomatch h
  refuses := iff_of_true rfl rfl

theorem awaitRight_failed (task : StartedTask σ) {cause : RuntimeCause}
    (hcause : cause ≠ .unknownAsyncTarget (p.variableAt target).name) :
    AwaitRight p target pos (some task) (.error { cause := cause, pos := pos }) where
  delivers := fun h => nomatch h
  refuses := by
    refine iff_of_false ?_ (Option.some_ne_none task)
    intro h
    cases h
    exact hcause rfl

theorem awaitEnds_found {task : StartedTask σ} {found : PendingTask}
    (hpending : (scene.setFor p target).bind (pendingIn p · target log) = some task)
    (hresult : task.result = found.result) {m : Machine σ}
    (hshows : forall answer, m.Shows p (awaitEvent scene target pos answer :: log) scene)
    (htables : p.Tables) (htarget : target < p.vars.length) :
    AwaitEnds p log scene target pos
      ((match found.result with
        | .error e => Eval.failAt (.taskFailed found.function e.cause e.pos) pos
        | .ok none => Eval.mismatch (.taskResult found.function) (p.variableAt target).type .none pos
        | .ok (some value) => Eval.writeVar p target value pos : Eval σ Unit) m) := by
  have hfailed : forall {cause : RuntimeCause},
      cause ≠ .unknownAsyncTarget (p.variableAt target).name ->
      Awaited p log scene target pos (.error { cause := cause, pos := pos }) m :=
    fun hcause => ⟨hpending ▸ awaitRight_failed task hcause, hshows _⟩
  cases houtcome : found.result with
  | error e => exact hfailed fun heq => nomatch heq
  | ok result =>
      cases result with
      | none => exact hfailed fun heq => nomatch heq
      | some value =>
          unfold Eval.writeVar
          by_cases htype : (p.variableAt target).type = value.type
          · simp only [if_pos htype]
            cases hstore : m.store? p target value with
            | none => exact hfailed fun heq => nomatch heq
            | some m' =>
                have hread := (hshows (.ok none)).shaped.read_store? htables htarget hstore
                refine ⟨hpending ▸ ⟨?_, ?_⟩, (hshows _).store? hstore⟩
                · intro answer hanswer
                  refine ⟨task, value, rfl, hresult.trans houtcome, ?_⟩
                  exact (Except.ok.inj hanswer).symm.trans hread
                · exact iff_of_false (fun heq => nomatch heq) (Option.some_ne_none task)
          · simp only [if_neg htype]
            exact hfailed fun heq => nomatch heq

variable {m : Machine σ} (h : m.Shows p log scene)

include h

theorem awaited_refused
    (hpending : (scene.setFor p target).bind (pendingIn p · target log) = none) :
    Awaited p log scene target pos
      (.error { cause := .unknownAsyncTarget (p.variableAt target).name, pos := pos }) m where
  right := hpending ▸ awaitRight_refused
  shows := by
    apply h.congr
    intro set _ other
    rw [pendingIn_awaitEvent]
    by_cases hon : scene.setFor p target = some set ∧ target = other
    · rw [hon.1, Option.bind_some, hon.2] at hpending
      rw [if_pos hon, hpending]
    · rw [if_neg hon]

theorem awaitTask_ends (hnodup : scene.numbers.Nodup) (htables : p.Tables)
    (htarget : target < p.vars.length) :
    AwaitEnds p log scene target pos (Eval.awaitTask p pos target m) := by
  have hrel := h.tasksFor target
  rw [Eval.awaitTask, Run.bind_apply, Eval.takeTask]
  cases hset : scene.setFor p target with
  | none =>
      rw [hset] at hrel
      cases htasks : m.tasksFor p target with
      | some tasks =>
          rw [htasks] at hrel
          cases hrel
      | none => exact awaited_refused h (by rw [hset]; rfl)
  | some set =>
      rw [hset] at hrel
      cases htasks : m.tasksFor p target with
      | none =>
          rw [htasks] at hrel
          cases hrel
      | some tasks =>
          rw [htasks] at hrel
          cases hrel with
          | some hshows =>
              have hfound := hshows.found target
              cases hfind : tasks.find? target with
              | none =>
                  rw [hfind] at hfound
                  have hnone := Option.map_eq_none_iff.mp hfound.symm
                  simp only [Option.bind_some, hfind]
                  exact awaited_refused h (by rw [hset]; exact hnone)
              | some found =>
                  rw [hfind] at hfound
                  rcases Option.map_eq_some_iff.mp hfound.symm with ⟨task, htask, hresult⟩
                  have hupdated := (Machine.finds_of_tasksFor htasks).update (·.erase target)
                  rcases Option.isSome_iff_exists.mp hupdated with ⟨m', hm'⟩
                  simp only [Option.bind_some, hfind, hm']
                  refine awaitEnds_found (by rw [hset]; exact htask) hresult ?_ htables htarget
                  intro answer
                  have hawait : (awaitEvent (σ := σ) scene target pos answer).setOf p = some set :=
                    hset
                  exact h.updateTasks? hnodup rfl hawait (fun _ htasks => htasks.erase hawait rfl) hm'

end Await
end Scriptlet
