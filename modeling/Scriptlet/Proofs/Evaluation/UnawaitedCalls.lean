import Scriptlet.Proofs.Evaluation.AsyncBook
import Scriptlet.Proofs.Evaluation.PendingTasks

/-!
# Calls that nobody awaited

A run reports the calls that its book has as not awaited, each of them once.  At every time
the machine owes a report of just these: what its sets have recorded as leaked, and what
still waits in them.  A start adds a call to both sides, and an await that succeeds takes
the same call from both.  A task that is replaced and a frame that is left only move what is
owed from one place of the machine to another.
-/

namespace Scriptlet

open scoped List

variable {ρ : Type}

/-!
# Sets of tasks
-/

namespace TaskList

variable {name : VarId -> String}

theorem perm_replace (task : PendingTask ρ) (pending : List (PendingTask ρ)) :
    (pending.find? (·.target == task.target)).toList ++ replace task pending ~ task :: pending := by
  induction pending with
  | nil => exact .rfl
  | cons other rest ih =>
      rw [List.find?_cons, replace]
      by_cases hother : other.target = task.target
      · rw [beq_iff_eq.mpr hother, if_pos hother]
        exact List.Perm.swap task other rest
      · rw [beq_eq_false_iff_ne.mpr hother, if_neg hother]
        exact List.perm_middle.trans ((ih.cons other).trans (.swap task other rest))

theorem leaks_insert (tasks : TaskList ρ) (task : PendingTask ρ) :
    (tasks.insert name task).leaks name ~ leakOf name task :: tasks.leaks name := by
  have hreplace := (perm_replace task tasks.pending).map (leakOf name)
  rw [List.map_append, ← Option.toList_map] at hreplace
  rw [leaks, insert, List.append_assoc]
  exact (hreplace.append_left tasks.leaked).trans List.perm_middle

theorem leaks_erase {tasks : TaskList ρ} {target : VarId} {task : PendingTask ρ}
    (h : tasks.find? target = some task) :
    tasks.leaks name ~ leakOf name task :: (tasks.erase target).leaks name := by
  rcases List.find?_eq_some_iff_append.mp h with ⟨hof, before, after, hsplit, hbefore⟩
  have herased : tasks.pending.eraseP (·.target == target) = before ++ after := by
    rw [hsplit, List.eraseP_append_right _ (by simpa using hbefore)]
    exact congrArg (before ++ ·) (List.eraseP_cons_of_pos hof)
  rw [leaks, leaks, erase, herased, hsplit, List.map_append, List.map_append, List.map_cons]
  exact (List.perm_middle.append_left _).trans List.perm_middle

theorem leaks_addLeaks (name : VarId -> String) (tasks : TaskList ρ) (leaks : List LeakedTask) :
    (tasks.addLeaks leaks).leaks name ~ tasks.leaks name ++ leaks := by
  simp only [TaskList.leaks, addLeaks, List.append_assoc]
  exact List.perm_append_comm.append_left tasks.leaked

/-- Each variable has at most one task, and it is the call that the book has pending. -/
structure Accords (p : Program) (book : List AsyncEvent) (set : Nat) (tasks : TaskList ρ) : Prop where
  distinct : (tasks.pending.map (·.target)).Nodup
  found : forall target,
    (tasks.find? target).map (leakOf (Eval.variableName p)) = pendingCall p set target book

variable {p : Program} {book : List AsyncEvent} {set : Nat} {tasks : TaskList ρ} {e : AsyncEvent}

theorem Accords.entered (h : tasks.Accords p book set) (hset : e.set = some set)
    {tasks' : TaskList ρ} (hdistinct : (tasks'.pending.map (·.target)).Nodup)
    (hown : (tasks'.find? e.target).map (leakOf (Eval.variableName p)) = e.call? p)
    (hother : forall target, e.target ≠ target -> tasks'.find? target = tasks.find? target) :
    tasks'.Accords p (book ++ [e]) set where
  distinct := hdistinct
  found := by
    intro target
    rw [pendingCall_concat]
    by_cases htarget : e.target = target
    · rw [if_pos (AsyncEvent.isAbout_iff.mpr ⟨hset, htarget⟩), ← htarget]
      exact hown
    · rw [if_neg fun habout => htarget (AsyncEvent.isAbout_iff.mp habout).2, hother target htarget]
      exact h.found target

theorem Accords.elsewhere (h : tasks.Accords p book set) (hset : e.set ≠ some set) :
    tasks.Accords p (book ++ [e]) set where
  distinct := h.distinct
  found := by
    intro target
    rw [pendingCall_concat, if_neg fun habout => hset (AsyncEvent.isAbout_iff.mp habout).1]
    exact h.found target

theorem Accords.insert (h : tasks.Accords p book set) {task : PendingTask ρ} (hset : e.set = some set)
    (htarget : e.target = task.target)
    (hcall : e.call? p = some (leakOf (Eval.variableName p) task)) :
    (tasks.insert (Eval.variableName p) task).Accords p (book ++ [e]) set := by
  have hfind : forall target, (tasks.insert (Eval.variableName p) task).find? target = _ :=
    find?_replace task tasks.pending
  refine h.entered hset (nodup_replace h.distinct) ?_ ?_
  · rw [hfind, if_pos htarget.symm, hcall]
    rfl
  · intro target hne
    rw [hfind, if_neg (htarget ▸ hne)]
    rfl

theorem Accords.erase (h : tasks.Accords p book set) (hset : e.set = some set)
    (hstep : e.step = .awaited) : (tasks.erase e.target).Accords p (book ++ [e]) set := by
  have hfind : forall target, (tasks.erase e.target).find? target = _ :=
    find?_eraseP h.distinct e.target
  refine h.entered hset (h.distinct.sublist (tasks.pending.eraseP_sublist.map _)) ?_ ?_
  · rw [hfind, if_pos rfl, AsyncEvent.call?, hstep]
    rfl
  · intro target hne
    rw [hfind, if_neg hne]
    rfl

theorem accords_empty (h : forall e, e ∈ book -> e.set ≠ some set) :
    (empty : TaskList ρ).Accords p book set where
  distinct := List.nodup_nil
  found := fun _ => (pendingCall_eq_none h).symm

end TaskList

/-!
# What a machine owes
-/

namespace Machine

variable {σ : Type} {p : Program} {m m' : Machine σ ρ} {name : VarId -> String}

def owed (name : VarId -> String) (m : Machine σ ρ) : List LeakedTask :=
  m.sets.flatMap (·.leaks name)

theorem owed_updateTasks? {id : VarId} {change : TaskList ρ -> TaskList ρ} {tasks : TaskList ρ}
    (htasks : m.tasksFor p id = some tasks) (h : m.updateTasks? p id change = some m')
    (more less : List LeakedTask)
    (hchange : more ++ tasks.leaks name ~ less ++ (change tasks).leaks name) :
    more ++ m.owed name ~ less ++ m'.owed name := by
  rcases sets_updateTasks? h with ⟨tasks', before, after, htasks', hsets, hsets'⟩
  cases htasks.symm.trans htasks'
  rw [owed, owed, hsets, hsets', List.flatMap_append, List.flatMap_append, List.flatMap_cons,
    List.flatMap_cons]
  calc more ++ (before.flatMap _ ++ (tasks.leaks name ++ after.flatMap _))
    _ ~ before.flatMap _ ++ (more ++ (tasks.leaks name ++ after.flatMap _)) :=
        List.perm_append_comm_assoc ..
    _ ~ before.flatMap _ ++ (less ++ ((change tasks).leaks name ++ after.flatMap _)) := by
        rw [← List.append_assoc more, ← List.append_assoc less]
        exact (hchange.append_right _).append_left _
    _ ~ less ++ (before.flatMap _ ++ ((change tasks).leaks name ++ after.flatMap _)) :=
        List.perm_append_comm_assoc ..

theorem owed_push (name : VarId -> String) (m : Machine σ ρ) {frame : Frame ρ}
    (htasks : frame.tasks = .empty) : (m.push frame).owed name = m.owed name := by
  simp only [owed, sets, push, List.map_cons, List.flatMap_cons, htasks]
  rfl

theorem owed_pop (name : VarId -> String) (m : Machine σ ρ) :
    (m.pop name).owed name ~ m.owed name := by
  rw [pop]
  cases hframes : m.frames with
  | nil => exact .rfl
  | cons frame rest =>
      have hmoved := m.tasks.leaks_addLeaks name (frame.tasks.leaks name)
      simp only [owed, sets, hframes, List.map_cons, List.flatMap_cons]
      rw [← List.append_assoc]
      exact hmoved.append_right _

end Machine

/-!
# Machines and books
-/

/-- The frame of a numbered call, with the tasks that the book has pending in it. -/
structure Frame.Accords (p : Program) (book : List AsyncEvent) (frame : Frame ρ)
    (call : NumberedCall) : Prop where
  owner : frame.owner = call.function
  tasks : frame.tasks.Accords p book call.number

/-- The sets hold what the book has pending in them, and the machine owes what the book has
as not awaited. -/
structure Machine.Balances {σ : Type} (p : Program) (book : List AsyncEvent) (scene : Scene)
    (m : Machine σ ρ) : Prop where
  sets : m.Numbered (Frame.Accords p book) (TaskList.Accords p book) scene
  owed : m.owed (Eval.variableName p) ~ unawaited p book

namespace Machine

variable {σ : Type} {p : Program} {book : List AsyncEvent} {scene : Scene} {m m' : Machine σ ρ}
  (h : m.Balances p book scene)

include h

theorem Balances.store? {id : VarId} {value : Value} (hstore : m.store? p id value = some m') :
    m'.Balances p book scene where
  sets := h.sets.store? (fun hframe _ _ => ⟨hframe.owner, hframe.tasks⟩) hstore
  owed := by
    rw [Machine.owed, sets_store? hstore]
    exact h.owed

theorem Balances.tasksFor (id : VarId) :
    Option.Rel (TaskList.Accords p book) (scene.setFor p id) (m.tasksFor p id) :=
  h.sets.tasksFor (·.tasks) (·.owner) id

variable (hnodup : scene.numbers.Nodup) {e : AsyncEvent} (hset : e.set = scene.setFor p e.target)

include hnodup hset

theorem Balances.change {change : TaskList ρ -> TaskList ρ}
    (hchange : forall set tasks, e.set = some set -> tasks.Accords p book set ->
      (change tasks).Accords p (book ++ [e]) set)
    (hupdate : m.updateTasks? p e.target change = some m') :
    m'.Numbered (Frame.Accords p (book ++ [e])) (TaskList.Accords p (book ++ [e])) scene := by
  rcases h.sets.setFor_of_updateTasks? (·.owner) hupdate with ⟨set, hfound⟩
  have he : e.set = some set := hset.trans hfound
  have hother : forall other, other ≠ set -> e.set ≠ some other :=
    fun other hne heq => hne (Option.some.inj (heq.symm.trans he))
  refine h.sets.updateTasks? (·.owner) hnodup hfound ?_ ?_ ?_ ?_ hupdate
  · exact fun _ _ hframe hne => ⟨hframe.owner, hframe.tasks.elsewhere (hother _ hne)⟩
  · intro frame call hframe hnumber
    exact ⟨hframe.owner, hnumber ▸ hchange set _ he (hnumber ▸ hframe.tasks)⟩
  · exact fun _ htasks hne => htasks.elsewhere (hother _ hne)
  · exact fun tasks htasks => hchange set tasks he htasks

theorem Balances.start {task : PendingTask ρ} (htarget : e.target = task.target)
    (hstep : e.step ≠ .awaited)
    (hcall : e.call? p = some (TaskList.leakOf (Eval.variableName p) task))
    (hupdate : m.updateTasks? p e.target (·.insert (Eval.variableName p) task) = some m') :
    m'.Balances p (book ++ [e]) scene where
  sets := h.change hnodup hset (fun _ _ he htasks => htasks.insert he htarget hcall) hupdate
  owed := by
    rcases h.sets.setFor_of_updateTasks? (·.owner) hupdate with ⟨set, hfound⟩
    have hrel := h.tasksFor e.target
    rw [hfound] at hrel
    cases htasks : m.tasksFor p e.target with
    | none =>
        rw [htasks] at hrel
        cases hrel
    | some tasks =>
        have howed := owed_updateTasks? htasks hupdate
          [TaskList.leakOf (Eval.variableName p) task] [] (tasks.leaks_insert task).symm
        rw [unawaited_start hstep, hcall]
        calc m'.owed (Eval.variableName p)
          _ ~ TaskList.leakOf (Eval.variableName p) task :: m.owed (Eval.variableName p) := howed.symm
          _ ~ TaskList.leakOf (Eval.variableName p) task :: unawaited p book := h.owed.cons _
          _ ~ unawaited p book ++ [TaskList.leakOf (Eval.variableName p) task] :=
              (List.perm_append_singleton _ _).symm

theorem Balances.await (hstep : e.step = .awaited) {tasks : TaskList ρ} {task : PendingTask ρ}
    (htasks : m.tasksFor p e.target = some tasks) (hfind : tasks.find? e.target = some task)
    (hupdate : m.updateTasks? p e.target (·.erase e.target) = some m') :
    e.Settles book ∧ m'.Balances p (book ++ [e]) scene := by
  rcases h.sets.setFor_of_updateTasks? (·.owner) hupdate with ⟨set, hfound⟩
  have he : e.set = some set := hset.trans hfound
  have hpending : pendingCall p set e.target book =
      some (TaskList.leakOf (Eval.variableName p) task) := by
    have hrel := h.tasksFor e.target
    rw [hfound, htasks] at hrel
    cases hrel with
    | some haccords => rw [← haccords.found, hfind, Option.map_some]
  rcases pendingCall_eq_some hpending with ⟨old, start, mid, hsplit, habout, hcall, hmid⟩
  rw [← he] at habout hmid
  have hstarted : start.step ≠ .awaited := by
    intro hstep
    rw [AsyncEvent.call?, hstep] at hcall
    cases hcall
  refine ⟨⟨old, start, mid, hsplit, habout, hstarted, hmid⟩, ?_, ?_⟩
  · exact h.change hnodup hset (fun _ _ he htasks => htasks.erase he hstep) hupdate
  · have howed := owed_updateTasks? htasks hupdate [] [TaskList.leakOf (Eval.variableName p) task]
      (TaskList.leaks_erase hfind)
    have hawait := unawaited_await (p := p) hstep hmid habout old
    rw [hcall, ← hsplit] at hawait
    exact (howed.symm.trans (h.owed.trans hawait)).cons_inv

end Machine

/-!
# Steps
-/

def SettledBook (book : List AsyncEvent) : Prop :=
  forall before e after, book = before ++ e :: after -> e.step = .awaited -> e.Settles before

theorem SettledBook.concat {book : List AsyncEvent} {e : AsyncEvent} (h : SettledBook book)
    (he : e.step = .awaited -> e.Settles book) : SettledBook (book ++ [e]) := by
  intro before d after hsplit hd
  rcases after.eq_nil_or_concat with rfl | ⟨after, last, rfl⟩
  · rcases List.append_inj' hsplit rfl with ⟨rfl, hsame⟩
    cases hsame
    exact he hd
  · rw [List.concat_eq_append, ← List.cons_append, ← List.append_assoc] at hsplit
    exact h before d after (List.append_inj' hsplit rfl).1 hd

structure Machine.Entered {σ : Type} (p : Program) (book : List AsyncEvent) (scene : Scene)
    (e : AsyncEvent) (m : Machine σ ρ) : Prop where
  balances : m.Balances p (book ++ [e]) scene
  settles : e.step = .awaited -> e.Settles book

namespace Booked

variable {σ α : Type} {p : Program} {scene : Scene}

structure Balanced (p : Program) (scene : Scene) (t : Booked σ ρ) : Prop where
  stands : t.scene = scene
  machine : t.machine.Balances p t.book scene
  numbers : forall set, set ∈ scene.numbers -> set < t.fresh
  sets : forall e, e ∈ t.book -> forall set, e.set = some set -> set < t.fresh
  settled : SettledBook t.book

theorem Balanced.enter {t : Booked σ ρ} (h : t.Balanced p scene) {f : FunId} {frame : Frame ρ}
    (howner : frame.owner = f) (htasks : frame.tasks = .empty) :
    (t.push frame).Balanced p (scene.enter f t.fresh) where
  stands := by
    rw [Scene.enter, ← h.stands, ← howner]
    rfl
  machine := by
    have hempty : (TaskList.empty : TaskList ρ).Accords p t.book t.fresh := by
      apply TaskList.accords_empty
      intro e he hset
      exact Nat.lt_irrefl _ (h.sets e he _ hset)
    refine ⟨⟨.cons ⟨howner, htasks ▸ hempty⟩ h.machine.sets.frames, h.machine.sets.tasks⟩, ?_⟩
    rw [push, Machine.owed_push _ _ htasks]
    exact h.machine.owed
  numbers := by
    intro set hset
    rcases Scene.mem_enter.mp hset with rfl | hset
    · exact Nat.lt_succ_self _
    · exact Nat.lt_succ_of_lt (h.numbers set hset)
  sets := fun e he set hset => Nat.lt_succ_of_lt (h.sets e he set hset)
  settled := h.settled

theorem Balanced.leave {t : Booked σ ρ} {f : FunId} {number : Nat}
    (h : t.Balanced p (scene.enter f number)) :
    (t.pop (Eval.variableName p)).Balanced p scene where
  stands := by
    rw [pop, h.stands]
    rfl
  machine := by
    refine ⟨?_, (Machine.owed_pop _ _).trans h.machine.owed⟩
    have hframes := h.machine.sets.frames
    rw [pop, Machine.pop]
    cases hstack : t.machine.frames with
    | nil =>
        rw [hstack] at hframes
        cases hframes
    | cons frame rest =>
        rw [hstack] at hframes
        cases hframes with
        | cons _ hrest =>
            exact ⟨hrest, h.machine.sets.tasks.distinct, h.machine.sets.tasks.found⟩
  numbers := fun set hset => h.numbers set (Scene.mem_enter.mpr (.inr hset))
  sets := h.sets
  settled := h.settled

abbrev Balancing (p : Program) (scene : Scene) (x : BookingOf ρ σ α) : Prop :=
  x.Leads (Balanced p scene) fun _ => True

theorem balancing_act {x : EvalOf ρ σ α}
    (hx : forall book, KeepsAll (Machine.Balances p book scene) x) : Balancing p scene (act x) := by
  intro t ht
  have hkept := hx t.book t.machine ht.machine
  unfold act
  cases houtcome : x t.machine with
  | done a m =>
      rw [houtcome] at hkept
      exact ⟨ht.stands, hkept.2, ht.numbers, ht.sets, ht.settled⟩
  | failed e m => trivial
  | unfinished => trivial

theorem Balanced.entered {t : Booked σ ρ} (ht : t.Balanced p scene) {m : Machine σ ρ}
    {target : VarId} {step : AsyncStep}
    (hm : m.Entered p t.book scene (scene.event p target step)) :
    (Booked.enter p target step { t with machine := m }).Balanced p scene := by
  rcases hm with ⟨hbalances, hsettles⟩
  rw [← ht.stands] at hsettles hbalances
  refine ⟨ht.stands, ht.stands ▸ hbalances, ht.numbers, ?_, ht.settled.concat hsettles⟩
  intro e he set hset
  rcases List.mem_append.mp he with he | he
  · exact ht.sets e he set hset
  · rw [List.mem_singleton.mp he] at hset
    exact ht.numbers set (ht.stands ▸ Scene.setFor_mem hset)

theorem balancing_enter {x : EvalOf ρ σ Unit} {target : VarId} {step : AsyncStep}
    (hx : forall {m book}, m.Balances p book scene -> (x m).Satisfies
      (fun _ m' => m'.Entered p book scene (scene.event p target step)) fun _ => True) :
    Balancing p scene (act x >>= fun _ => Run.modify (enter p target step)) := by
  intro t ht
  have hend := hx ht.machine
  rw [Run.bind_apply, act]
  cases houtcome : x t.machine with
  | failed e m => trivial
  | unfinished => trivial
  | done _ m =>
      rw [houtcome] at hend
      exact ht.entered hend

theorem keepsBalances_writeVar {book : List AsyncEvent} (id : VarId) (value : Value) (pos : Pos) :
    KeepsAll (fun m : Machine σ ρ => m.Balances p book scene) (Eval.writeVar p id value pos) :=
  keeps_writeVar_of (fun _ hm hstore => hm.store? hstore) pos

theorem addTask_done {task : PendingTask ρ} {m m' : Machine σ ρ}
    (h : Eval.addTask p task m = .done () m') :
    m.updateTasks? p task.target (·.insert (Eval.variableName p) task) = some m' := by
  unfold Eval.addTask at h
  split at h
  · rename_i m'' hupdate
    cases h
    exact hupdate
  · cases h

theorem startCall_done {task : Invoke σ} {pos : Pos} {target : VarId} {f : FunId}
    {values : List Value} {m m' : Machine σ}
    (h : Eval.startCall p task pos target f values m = .done () m') :
    exists (ended : Machine σ) (result : TaskResult), (m.afterTask ended).updateTasks? p target
      (·.insert (Eval.variableName p)
        { target := target, function := (p.function f).name, pos := pos, result := result }) =
      some m' := by
  rw [Eval.startCall, Run.bind_apply, Eval.checkTarget] at h
  cases htasks : m.tasksFor p target with
  | none =>
      rw [htasks] at h
      cases h
  | some tasks =>
      simp only [htasks, Run.bind_apply, Eval.asTask] at h
      cases hcall : task f values pos m.forTask with
      | done value ended =>
          rw [hcall] at h
          exact ⟨ended, .ok value, addTask_done h⟩
      | failed e ended =>
          rw [hcall] at h
          exact ⟨ended, .error e, addTask_done h⟩
      | unfinished =>
          rw [hcall] at h
          cases h

theorem entered_deliver {m : Machine σ ρ} {book : List AsyncEvent}
    {e : AsyncEvent} (he : m.Entered p book scene e) (pos : Pos)
    (target : VarId) (function : String) (result : TaskResult) :
    (Eval.deliver p pos target function result m).Satisfies
      (fun _ m' => m'.Entered p book scene e) fun _ => True := by
  cases result with
  | error cause => trivial
  | ok result =>
      cases result with
      | none => trivial
      | some value =>
          have hstored := keepsBalances_writeVar target value pos m he.balances
          rw [Eval.deliver]
          cases houtcome : Eval.writeVar p target value pos m with
          | done _ m' =>
              rw [houtcome] at hstored
              exact ⟨hstored.2, he.settles⟩
          | failed e m' => trivial
          | unfinished => trivial

section Tasks

section Sets

variable (hnodup : scene.numbers.Nodup) {m : Machine σ ρ} {book : List AsyncEvent}
  (h : m.Balances p book scene)

include hnodup h

theorem entered_addTask {task : PendingTask ρ} {f : FunId}
    (hname : task.function = (p.function f).name) :
    (Eval.addTask p task m).Satisfies
      (fun _ m' => m'.Entered p book scene (scene.event p task.target (.started f task.pos)))
      fun _ => True := by
  cases hadd : Eval.addTask p task m with
  | failed e m' => trivial
  | unfinished => trivial
  | done _ m' =>
      have hstep : AsyncStep.started f task.pos ≠ .awaited := fun heq => nomatch heq
      have hcall : (scene.event p task.target (.started f task.pos)).call? p =
          some (TaskList.leakOf (Eval.variableName p) task) := by
        rw [TaskList.leakOf, hname]
        rfl
      exact ⟨h.start hnodup rfl rfl hstep hcall (addTask_done hadd), fun heq => absurd heq hstep⟩

theorem entered_takeTask (pos : Pos) (target : VarId) :
    (Eval.takeTask p target pos m).Satisfies
      (fun _ m' => m'.Entered p book scene (scene.event p target .awaited)) fun _ => True := by
  unfold Eval.takeTask
  cases htasks : m.tasksFor p target with
  | none => trivial
  | some tasks =>
      rw [Option.bind_some]
      cases hfind : tasks.find? target with
      | none => trivial
      | some task =>
          cases hupdate : m.updateTasks? p target (·.erase target) with
          | none => trivial
          | some m' =>
              have hset : (scene.event p target .awaited).set = scene.setFor p target := rfl
              rcases h.await hnodup hset rfl htasks hfind hupdate with ⟨hsettles, hbalances⟩
              exact ⟨hbalances, fun _ => hsettles⟩

end Sets

variable (hnodup : scene.numbers.Nodup) {m : Machine σ} {book : List AsyncEvent}
  (h : m.Balances p book scene)

include hnodup h

theorem entered_startCall (task : Invoke σ) (pos : Pos) (target : VarId) (f : FunId)
    (values : List Value) :
    (Eval.startCall p task pos target f values m).Satisfies
      (fun _ m' => m'.Entered p book scene (scene.event p target (.started f pos)))
      fun _ => True := by
  cases hstart : Eval.startCall p task pos target f values m with
  | failed e m' => trivial
  | unfinished => trivial
  | done _ m' =>
      rcases startCall_done hstart with ⟨ended, result, hupdate⟩
      have hafter : (m.afterTask ended).Balances p book scene :=
        ⟨⟨h.sets.frames, h.sets.tasks⟩, h.owed⟩
      have hstep : AsyncStep.started f pos ≠ .awaited := fun heq => nomatch heq
      exact ⟨hafter.start hnodup rfl rfl hstep rfl hupdate, fun heq => absurd heq hstep⟩

theorem entered_awaitTask (pos : Pos) (target : VarId) :
    (Eval.awaitTask p pos target m).Satisfies
      (fun _ m' => m'.Entered p book scene (scene.event p target .awaited)) fun _ => True := by
  apply satisfies_bind (entered_takeTask hnodup h pos target)
  intro task m' hentered
  exact entered_deliver hentered pos target task.function task.result

end Tasks

theorem balancing_inFrame {f : FunId} {frame : Frame} (howner : frame.owner = f)
    (htasks : frame.tasks = .empty) (hnodup : scene.numbers.Nodup) {body : Booking σ α}
    (hbody : forall number, (scene.enter f number).numbers.Nodup ->
      Balancing p (scene.enter f number) body) : Balancing p scene (inFrame p frame body) := by
  intro t ht
  have hnew : t.fresh ∉ scene.numbers := fun hmem => Nat.lt_irrefl _ (ht.numbers _ hmem)
  have hinside := hbody t.fresh (Scene.nodup_enter hnodup hnew) (t.push frame) (ht.enter howner htasks)
  unfold inFrame
  cases houtcome : body (t.push frame) with
  | done a t' =>
      rw [houtcome] at hinside
      exact hinside.leave
  | failed e t' => trivial
  | unfinished => trivial

/-!
# Runs
-/

def CallsBalance (p : Program)
    (invoke : FunId -> List Value -> Pos -> Booking σ (Option Value)) : Prop :=
  forall scene f values pos, scene.numbers.Nodup -> Balancing p scene (invoke f values pos)

theorem balancing_actions (task : Invoke σ)
    {invoke : FunId -> List Value -> Pos -> Booking σ (Option Value)} (hcalls : CallsBalance p invoke)
    (hnodup : scene.numbers.Nodup) :
    (actions p task invoke).Lead (fun _ => True) (Balanced p scene) fun _ => True where
  raise := fun _ _ _ => trivial
  reads := fun pos _ => balancing_act fun _ => keeps_readVar _ pos
  writes := fun v pos _ _ => balancing_act fun _ => keepsBalances_writeVar _ v pos
  calls := fun values pos _ => hcalls scene _ values pos hnodup
  starts := fun pos values _ => balancing_enter fun hm => entered_startCall hnodup hm task pos _ _ values
  awaits := fun pos _ => balancing_enter fun hm => entered_awaitTask hnodup hm pos _
  exhausted := fun _ _ => trivial

theorem callsBalance_invoke (l : Loaded σ) (fuel : Nat) :
    CallsBalance l.program (l.bookedInvoke fuel) := by
  -- By induction on the fuel: a call is entered with a set of its own, and calls with less fuel
  -- balance its body.
  induction fuel with
  | zero => exact fun _ _ _ _ _ _ _ => trivial
  | succ fuel ih =>
      intro scene f values pos hnodup
      cases hbody : (l.program.function f).body with
      | none =>
          simp only [Loaded.bookedInvoke, hbody]
          apply balancing_act
          intro book
          apply keeps_invoke
          · exact fun m host hm => ⟨⟨hm.sets.frames, hm.sets.tasks⟩, hm.owed⟩
          · intro block hblock
            rw [hbody] at hblock
            cases hblock
      | some block =>
          simp only [Loaded.bookedInvoke, hbody]
          have hinside : Balancing l.program scene
              (inFrame l.program (Eval.callFrame l.program f values)
                (Walk.stmts (actions l.program (l.invoke fuel) (l.bookedInvoke fuel)) l.program fuel
                  block.body)) := by
            refine balancing_inFrame rfl rfl hnodup fun number hnodup => ?_
            exact leads_stmts (balancing_actions _ ih hnodup) fuel fun _ _ => trivial
          apply hinside.bind
          intro flow
          exact balancing_act fun _ => keeps_checkResult _ pos _

theorem balanced_initial (p : Program) (host : σ) :
    (initial p host : Booked σ ρ).Balanced p { home := 0, stack := [] } where
  stands := rfl
  machine := ⟨⟨.nil, TaskList.accords_empty fun _ he => nomatch he⟩, .nil⟩
  numbers := by
    intro set hset
    rw [List.mem_singleton.mp hset]
    exact Nat.zero_lt_one
  sets := fun _ he => nomatch he
  settled := by
    intro before e after hsplit
    cases before <;> cases hsplit

/-- The calls that the report lists are those that were not awaited, and no task is left. -/
structure Closes (p : Program) (report : RunReport) (t : Booked σ ρ) : Prop where
  leaked : report.leaked ~ unawaited p t.book
  settled : SettledBook t.book
  tasks : t.machine.tasks = .empty
  frames : t.machine.frames = []

/-- A balanced evaluator without frames closes with a report of what its last set holds. -/
theorem Balanced.closes {t : Booked σ ρ} (ht : t.Balanced p scene) (hframes : t.machine.frames = [])
    (result : Option Value) :
    Closes p { result := result, leaked := t.machine.tasks.leaks (Eval.variableName p) }
      { t with machine := { t.machine with tasks := .empty } } := by
  have howed : t.machine.owed (Eval.variableName p) =
      t.machine.tasks.leaks (Eval.variableName p) := by
    rw [Machine.owed, Machine.sets, hframes]
    exact List.append_nil _
  exact ⟨howed ▸ ht.machine.owed, ht.settled, rfl, hframes⟩

theorem closes_bookedRun (l : Loaded σ) (fuel : Nat) (host : σ) :
    (l.bookedRun fuel (.initial l.program host)).Satisfies (Closes l.program) fun _ => True := by
  have hroot : Balancing l.program { home := 0, stack := [] }
      (Walk.stmts (actions l.program (l.invoke fuel) (l.bookedInvoke fuel)) l.program fuel
        l.program.root) := by
    have hnodup : Scene.numbers { home := 0, stack := [] } |>.Nodup := List.nodup_singleton 0
    have hacts := balancing_actions (l.invoke fuel) (callsBalance_invoke l fuel) hnodup
    exact leads_stmts hacts fuel fun _ _ => trivial
  apply satisfies_bind (hroot _ (balanced_initial l.program host))
  intro flow t ht
  exact ht.closes (List.forall₂_nil_right_iff.mp ht.machine.sets.frames) flow.value?

end Booked
end Scriptlet
