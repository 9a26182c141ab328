import Scriptlet.Proofs.Evaluation.LexicalFrames
import Scriptlet.Proofs.Evaluation.TaskLog

/-!
# Each await gets its own task

What an evaluator logs is right, whatever others do in the meantime.  A task is the result
of the call that was started.  An await is answered by the task that its set has pending
for its variable.  And a set of a frame is touched by the call of that frame or by functions
that stand in its function, so that other calls leave its tasks alone.
-/

namespace Scriptlet

def TaskResult.outcome {state : Type} (result : TaskResult) (s : state) :
    Outcome (Option RuntimeError) state (Option Value) :=
  match result with
  | .ok value => .done value s
  | .error e => .failed (some e) s

/-- The task has the result of its call, made by an evaluator with the machine on which the task
was started in the beginning and the given log in the end. -/
def Loaded.Answers {σ : Type} (l : Loaded σ) (moves : Nat -> Move σ) (task : StartedTask σ)
    (log : List (TaskEvent σ)) : Prop :=
  exists fuel t t', t.machine = task.start ∧ t'.log = log ∧
    l.tracedInvoke moves fuel task.function task.values task.pos t =
      TaskResult.outcome task.result t'

/-- The event is right behind the log. -/
structure TaskEvent.Right {σ : Type} (l : Loaded σ) (moves : Nat -> Move σ) (log : List (TaskEvent σ))
    (e : TaskEvent σ) : Prop where
  /-- The set of a frame is touched by the call of the frame, or from inside of functions
  that stand in its function. -/
  actor : forall o, (l.program.variableAt e.target).owner = some o ->
    exists call rest, e.scene.stack = call :: rest ∧
      (call.function = o ∧ e.setOf l.program = some call.number ∨
        l.program.Encloses o call.function)
  started : forall task, e.change = .started task ->
    (exists set, e.setOf l.program = some set) ∧ task.start.frames = [] ∧
      task.start.tasks = .empty ∧ l.Answers moves task log
  awaited : forall pos answer, e.change = .awaited pos answer ->
    AwaitRight l.program e.target pos
      ((e.setOf l.program).bind (pendingIn l.program · e.target log)) answer

inductive LogRight {σ : Type} (l : Loaded σ) (moves : Nat -> Move σ) : List (TaskEvent σ) -> Prop where
  | nil : LogRight l moves []
  | cons {e : TaskEvent σ} {log : List (TaskEvent σ)} :
      e.Right l moves log -> LogRight l moves log -> LogRight l moves (e :: log)

/-!
# What stays
-/

/-- The numbers of the scene are different ones, from a number on. -/
structure Scene.From (base : Nat) (scene : Scene) : Prop where
  nodup : scene.numbers.Nodup
  le : forall set, set ∈ scene.numbers -> base ≤ set

/-- An evaluator in a scene, whose log is right and shows what its machine holds.  Since
the past it has touched no set below a number. -/
structure Traced.Steady {σ : Type} (l : Loaded σ) (moves : Nat -> Move σ) (scene : Scene)
    (base : Nat) (past : List (TaskEvent σ)) (t : Traced σ) : Prop where
  stands : t.scene = scene
  machine : t.machine.Shows l.program t.log scene
  numbers : forall set, set ∈ scene.numbers -> set < t.fresh
  sets : forall e, e ∈ t.log -> forall set, e.setOf l.program = some set -> set < t.fresh
  right : LogRight l moves t.log
  since : exists news, t.log = news ++ past ∧
    forall e, e ∈ news -> forall set, e.setOf l.program = some set -> base ≤ set

theorem Scene.setFor_mem {p : Program} {scene : Scene} {id : VarId} {set : Nat}
    (h : scene.setFor p id = some set) : set ∈ scene.numbers := by
  rw [setFor] at h
  cases howner : (p.variableAt id).owner with
  | none =>
      rw [howner] at h
      cases h
      exact List.mem_cons_self
  | some owner =>
      rw [howner] at h
      rcases Option.map_eq_some_iff.mp h with ⟨call, hfind, hnumber⟩
      exact List.mem_cons_of_mem _ (List.mem_map.mpr ⟨call, List.mem_of_find?_eq_some hfind, hnumber⟩)

section Moves

variable {σ : Type}

theorem Move.length_globals (move : Move σ) (m : Machine σ) :
    (move.apply m).globals.length = m.globals.length := by
  have hstores : forall (stores : List (Nat × Value)) (globals : List (Option Value)),
      (stores.foldl (fun g entry => g.set entry.1 (some entry.2)) globals).length =
        globals.length := by
    intro stores
    induction stores with
    | nil => exact fun _ => rfl
    | cons entry rest ih => exact fun globals => (ih _).trans List.length_set
  exact hstores move.stores m.globals

theorem Machine.Shows.apply {p : Program} {log : List (TaskEvent σ)} {scene : Scene} {m : Machine σ}
    (h : m.Shows p log scene) (move : Move σ) : (move.apply m).Shows p log scene where
  globals := (move.length_globals m).trans h.globals
  frames := h.frames
  tasks := h.tasks

end Moves

namespace Traced

variable {σ α : Type} {l : Loaded σ} {moves : Nat -> Move σ} {scene : Scene} {base : Nat}
  {past : List (TaskEvent σ)} {t : Traced σ}

theorem Steady.moved (h : t.Steady l moves scene base past) :
    (t.moved moves).Steady l moves scene base past where
  stands := h.stands
  machine := h.machine.apply _
  numbers := h.numbers
  sets := h.sets
  right := h.right
  since := h.since

theorem Steady.withMachine (h : t.Steady l moves scene base past) {m : Machine σ}
    (hm : m.Shows l.program t.log scene) :
    Steady l moves scene base past { t with machine := m } where
  stands := h.stands
  machine := hm
  numbers := h.numbers
  sets := h.sets
  right := h.right
  since := h.since

theorem stays_act {x : Eval σ α}
    (hx : forall log, KeepsAll (fun m => m.Shows l.program log scene) x) :
    (act moves x).Stays (Steady l moves scene base past) := by
  intro t ht
  have hmoved := ht.moved
  have hkeeps := hx t.log (t.moved moves).machine hmoved.machine
  unfold act
  simp only
  cases houtcome : x (t.moved moves).machine with
  | done a m =>
      rw [houtcome] at hkeeps
      exact hmoved.withMachine hkeeps.2
  | failed e m =>
      rw [houtcome] at hkeeps
      exact hmoved.withMachine hkeeps
  | unfinished => exact hmoved

theorem Steady.record (h : t.Steady l moves scene base past) (hscene : scene.From base)
    {target : VarId} {change : TaskChange σ} {m : Machine σ}
    (hm : m.Shows l.program ({ scene := scene, target := target, change := change } :: t.log) scene)
    (hright : TaskEvent.Right l moves t.log { scene := scene, target := target, change := change }) :
    Steady l moves scene base past (record target change { t with machine := m }) := by
  have hset : forall {set}, scene.setFor l.program target = some set -> set ∈ scene.numbers :=
    Scene.setFor_mem
  rcases h with ⟨rfl, -, hnumbers, hsets, hlog, news, hnews, hbase⟩
  refine ⟨rfl, hm, hnumbers, ?_, .cons hright hlog, _ :: news, congrArg (_ :: ·) hnews, ?_⟩
  · intro e he set hof
    rcases List.mem_cons.mp he with rfl | he
    · exact hnumbers set (hset hof)
    · exact hsets e he set hof
  · intro e he set hof
    rcases List.mem_cons.mp he with rfl | he
    · exact hscene.le set (hset hof)
    · exact hbase e he set hof

/-!
# Tasks
-/

theorem Steady.forTask (h : t.Steady l moves scene base past) :
    t.forTask.Steady l moves { home := t.fresh, stack := [] } t.fresh t.log where
  stands := rfl
  machine := by
    refine ⟨h.machine.globals, .nil, TaskList.shows_empty ?_⟩
    intro e he hset
    exact Nat.lt_irrefl _ (h.sets e he _ hset)
  numbers := by
    intro set hset
    rw [List.mem_singleton.mp hset]
    exact Nat.lt_succ_self _
  sets := fun e he set hset => Nat.lt_succ_of_lt (h.sets e he set hset)
  right := h.right
  since := ⟨[], rfl, fun _ he => nomatch he⟩

theorem Steady.afterTask (h : t.Steady l moves scene base past) (hscene : scene.From base)
    {task : Traced σ} (htask : task.Steady l moves { home := t.fresh, stack := [] } t.fresh t.log) :
    (t.afterTask task).Steady l moves scene base past := by
  have hfresh : t.fresh < task.fresh := htask.numbers t.fresh List.mem_cons_self
  rcases htask.since with ⟨news, hnews, hlater⟩
  rcases h.since with ⟨olds, holds, hbase⟩
  have hmachine : t.machine.Shows l.program task.log scene := by
    apply h.machine.congr
    intro set hset target
    rw [hnews]
    apply pendingIn_append
    intro e he hof
    exact Nat.lt_irrefl set (Nat.lt_of_lt_of_le (h.numbers set hset) (hlater e he set hof))
  refine ⟨h.stands, ⟨htask.machine.globals, hmachine.frames, hmachine.tasks⟩, ?_, htask.sets,
    htask.right, news ++ olds, ?_, ?_⟩
  · exact fun set hset => Nat.lt_trans (h.numbers set hset) hfresh
  · show task.log = news ++ olds ++ past
    rw [hnews, holds, List.append_assoc]
  · intro e he set hset
    rcases List.mem_append.mp he with he | he
    · have hhome := h.numbers scene.home List.mem_cons_self
      have hle := hscene.le scene.home List.mem_cons_self
      exact Nat.le_trans hle (Nat.le_of_lt (Nat.lt_of_lt_of_le hhome (hlater e he set hset)))
    · exact hbase e he set hset

end Traced

/-!
# What stands in the text
-/

def Scene.Text (p : Program) (scene : Scene) (m : Mention) : Prop :=
  match scene.stack with
  | [] => m ∈ Stmt.listMentions p.root
  | call :: _ => m ∈ p.mentionsOf call.function

def Scene.enter (scene : Scene) (f : FunId) (number : Nat) : Scene :=
  { scene with stack := { function := f, number := number } :: scene.stack }

section Enter

variable {scene : Scene} {f : FunId} {number set : Nat}

theorem Scene.mem_enter :
    set ∈ (scene.enter f number).numbers <-> set = number ∨ set ∈ scene.numbers := by
  simp only [numbers, enter, List.map_cons, List.mem_cons]
  exact or_left_comm

theorem Scene.nodup_enter (h : scene.numbers.Nodup) (hnew : number ∉ scene.numbers) :
    (scene.enter f number).numbers.Nodup := by
  have hperm : (scene.enter f number).numbers.Perm (number :: scene.numbers) :=
    List.Perm.swap number scene.home _
  exact hperm.nodup_iff.mpr (List.nodup_cons.mpr ⟨hnew, h⟩)

end Enter

section Text

variable {p : Program} (hwell : p.WellFormed) {scene : Scene} {m : Mention} (h : scene.Text p m)

include hwell h

theorem Scene.Text.actor {id : VarId} (hid : m.variable? = some id) (o : FunId)
    (howner : (p.variableAt id).owner = some o) : exists call rest, scene.stack = call :: rest ∧
      (call.function = o ∧ scene.setFor p id = some call.number ∨ p.Encloses o call.function) := by
  rw [Scene.Text] at h
  cases hstack : scene.stack with
  | nil =>
      rw [hstack] at h
      rw [hwell.owner_root h hid] at howner
      cases howner
  | cons call rest =>
      rw [hstack] at h
      refine ⟨call, rest, rfl, ?_⟩
      rcases (hwell.surrounds h hid howner).eq_or_encloses with rfl | hencloses
      · exact .inl ⟨rfl, by simp [Scene.setFor, howner, hstack]⟩
      · exact .inr hencloses

theorem Scene.Text.lt {id : VarId} (hstored : m.stored? = some id) : id < p.vars.length := by
  apply Program.lt_of_stored (m := m) _ hstored
  rw [Scene.Text] at h
  cases hstack : scene.stack with
  | nil =>
      rw [hstack] at h
      exact ⟨_, hwell.root m h⟩
  | cons call rest =>
      rw [hstack] at h
      have hbody : m ∈ p.mentionsOf call.function := h
      have hf := Program.lt_of_mem_mentionsOf hbody
      rcases hwell.bodies call.function hf with hnative | ⟨-, outer, -, hfit⟩
      · rw [Program.mentionsOf, Program.bodyOf, Option.isNone_iff_eq_none.mp hnative] at hbody
        cases hbody
      · exact ⟨_, hfit m hbody⟩

end Text

/-!
# Steps
-/

theorem satisfies_bind {ε σ α β : Type} {x : Run ε σ α} {f : α -> Run ε σ β} {s : σ}
    {done : α -> σ -> Prop} {done' : β -> σ -> Prop} {failed : σ -> Prop}
    (hx : (x s).Satisfies done failed)
    (hf : forall a s', done a s' -> (f a s').Satisfies done' failed) :
    ((x >>= f) s).Satisfies done' failed := by
  rw [Run.bind_apply]
  cases houtcome : x s with
  | done a s' =>
      rw [houtcome] at hx
      exact hf a s' hx
  | failed e s' =>
      rw [houtcome] at hx
      exact hx
  | unfinished => trivial

theorem Run.Stays.of_state {ε σ α : Type} {inv : σ -> Prop} {x : Run ε σ α} (h : x.Stays inv)
    {s s' : σ} (hs : inv s) (hx : (x s).state? = some s') : inv s' := by
  have hs' := h s hs
  cases houtcome : x s with
  | done a t =>
      rw [houtcome] at hs' hx
      cases hx
      exact hs'
  | failed e t =>
      rw [houtcome] at hs' hx
      cases hx
      exact hs'
  | unfinished =>
      rw [houtcome] at hx
      cases hx

def CallsSteady {σ : Type} (l : Loaded σ) (moves : Nat -> Move σ) (fuel : Nat) : Prop :=
  forall scene base past f values pos, scene.From base ->
    (l.tracedInvoke moves fuel f values pos).Stays (Traced.Steady l moves scene base past)

namespace Traced

variable {σ α : Type} {l : Loaded σ} {moves : Nat -> Move σ} {scene : Scene} {base : Nat}
  {past : List (TaskEvent σ)} {t : Traced σ}

section Steps

variable (hwell : l.program.WellFormed) (hscene : scene.From base)

include hscene

theorem satisfies_asTask {fuel : Nat} (hcalls : CallsSteady l moves fuel)
    (ht : t.Steady l moves scene base past) (f : FunId) (values : List Value) (pos : Pos) :
    (asTask (l.tracedInvoke moves fuel f values pos) t).Satisfies
      (fun result t' => t'.Steady l moves scene base past ∧
        l.Answers moves
          { function := f, values := values, pos := pos, start := t.machine.forTask, result := result }
          t'.log)
      (Steady l moves scene base past) := by
  have hfrom : Scene.From t.fresh { home := t.fresh, stack := [] } := by
    refine ⟨List.nodup_singleton _, ?_⟩
    intro set hset
    rw [List.mem_singleton.mp hset]
  have hcall := hcalls _ _ t.log f values pos hfrom t.forTask ht.forTask
  unfold asTask
  cases houtcome : l.tracedInvoke moves fuel f values pos t.forTask with
  | done value task =>
      rw [houtcome] at hcall
      exact ⟨ht.afterTask hscene hcall, fuel, t.forTask, task, rfl, rfl, houtcome⟩
  | failed e task =>
      rw [houtcome] at hcall
      cases e with
      | none => exact ht.afterTask hscene hcall
      | some e =>
          exact ⟨ht.afterTask hscene hcall, fuel, t.forTask, task, rfl, rfl, houtcome⟩
  | unfinished => trivial

include hwell

theorem stays_awaitTask {target : VarId} (htext : scene.Text l.program (.await target)) (pos : Pos) :
    (awaitTask moves l.program pos target).Stays (Steady l moves scene base past) := by
  intro t ht
  have hmoved := ht.moved
  have hends : AwaitEnds l.program t.log scene target pos
      (Eval.awaitTask l.program pos target (t.moved moves).machine) :=
    awaitTask_ends hmoved.machine hscene.nodup hwell.tables (htext.lt hwell rfl)
  have hright : forall {answer : Except RuntimeError (Option Value)},
      AwaitRight l.program target pos
        ((scene.setFor l.program target).bind (pendingIn l.program · target t.log)) answer ->
      TaskEvent.Right l moves t.log
        { scene := scene, target := target, change := .awaited pos answer } := by
    intro answer hanswer
    refine ⟨htext.actor hwell rfl, fun _ hchange => (nomatch hchange), ?_⟩
    intro pos' answer' hchange
    cases hchange
    exact hanswer
  unfold awaitTask act
  simp only
  cases houtcome : Eval.awaitTask l.program pos target (t.moved moves).machine with
  | done _ m =>
      rw [houtcome] at hends
      exact hmoved.record hscene hends.shows (hright hends.right)
  | failed e m =>
      rw [houtcome] at hends
      exact hmoved.record hscene hends.shows (hright hends.right)
  | unfinished => exact hmoved

theorem stays_startTask {fuel : Nat} (hcalls : CallsSteady l moves fuel) {target : VarId} {f : FunId}
    {arity : Nat} (htext : scene.Text l.program (.start target f arity)) (values : List Value)
    (pos : Pos) :
    (startTask moves l.program (l.tracedInvoke moves fuel f values pos) pos target f values).Stays
      (Steady l moves scene base past) := by
  have hcheck : (act moves (Eval.checkTarget l.program target pos)).Stays
      (Steady l moves scene base past) := stays_act fun _ => keeps_checkTarget target pos
  apply hcheck.bind
  intro _ t ht
  rw [Run.bind_apply, Run.get_apply]
  apply satisfies_bind (satisfies_asTask hscene hcalls ht f values pos)
  intro result t' ht'
  rcases ht' with ⟨ht', hanswers⟩
  have hmoved := ht'.moved
  rw [Run.bind_apply]
  unfold act Eval.addTask
  simp only
  let task : StartedTask σ :=
    { function := f, values := values, pos := pos, start := t.machine.forTask, result := result }
  let event : TaskEvent σ := { scene := scene, target := target, change := .started task }
  cases hupdate : (t'.moved moves).machine.updateTasks? l.program target
      (·.insert (Eval.variableName l.program)
        { target := target, function := (l.program.function f).name, pos := pos, result := result })
    with
  | none => exact hmoved
  | some m =>
      rcases hmoved.machine.setFor_of_updateTasks? hupdate with ⟨set, hset⟩
      have hof : event.setOf l.program = some set := hset
      have hm : m.Shows l.program (event :: t'.log) scene :=
        hmoved.machine.updateTasks? hscene.nodup rfl hof
          (fun _ htasks => htasks.insert _ hof rfl rfl rfl) hupdate
      have hright : event.Right l moves t'.log := by
        constructor
        · exact htext.actor hwell rfl
        · intro started hchange
          cases hchange
          exact ⟨⟨set, hset⟩, rfl, rfl, hanswers⟩
        · intro pos answer hchange
          cases hchange
      exact hmoved.record hscene hm hright

end Steps

/-!
# Calls
-/

theorem Steady.enter (h : t.Steady l moves scene base past) {f : FunId} {frame : Frame}
    (hframe : frame.IsOf l.program f) (htasks : frame.tasks = .empty) :
    (t.push frame).Steady l moves (scene.enter f t.fresh) base past where
  stands := by
    rw [Scene.enter, ← h.stands, ← hframe.owner]
    rfl
  machine := by
    have hempty : TaskList.empty.Shows l.program t.log t.fresh := by
      apply TaskList.shows_empty
      intro e he hset
      exact Nat.lt_irrefl _ (h.sets e he _ hset)
    exact ⟨h.machine.globals, .cons ⟨hframe, htasks ▸ hempty⟩ h.machine.frames, h.machine.tasks⟩
  numbers := by
    intro set hset
    rcases Scene.mem_enter.mp hset with rfl | hset
    · exact Nat.lt_succ_self _
    · exact Nat.lt_succ_of_lt (h.numbers set hset)
  sets := fun e he set hset => Nat.lt_succ_of_lt (h.sets e he set hset)
  right := h.right
  since := h.since

theorem Steady.from_enter (h : t.Steady l moves scene base past) (hscene : scene.From base)
    (f : FunId) : (scene.enter f t.fresh).From base where
  nodup := Scene.nodup_enter hscene.nodup fun hmem => Nat.lt_irrefl _ (h.numbers _ hmem)
  le := by
    have hhome : scene.home ∈ scene.numbers := List.mem_cons_self
    intro set hset
    rcases Scene.mem_enter.mp hset with rfl | hset
    · exact Nat.le_trans (hscene.le _ hhome) (Nat.le_of_lt (h.numbers _ hhome))
    · exact hscene.le set hset

theorem Steady.leave {f : FunId} {number : Nat}
    (h : t.Steady l moves (scene.enter f number) base past) (name : VarId -> String) :
    (t.pop name).Steady l moves scene base past where
  stands := by
    rw [pop, h.stands]
    rfl
  machine := by
    have hframes := h.machine.frames
    rw [pop, Machine.pop]
    cases hstack : t.machine.frames with
    | nil =>
        rw [hstack] at hframes
        cases hframes
    | cons frame rest =>
        rw [hstack] at hframes
        cases hframes with
        | cons _ hrest =>
            exact ⟨h.machine.globals, hrest, h.machine.tasks.distinct, h.machine.tasks.found⟩
  numbers := fun set hset => h.numbers set (Scene.mem_enter.mpr (.inr hset))
  sets := h.sets
  right := h.right
  since := h.since

theorem stays_inFrame (hscene : scene.From base) {f : FunId} {frame : Frame}
    (hframe : frame.IsOf l.program f) (htasks : frame.tasks = .empty) {body : Tracing σ α}
    (hbody : forall number, (scene.enter f number).From base ->
      body.Stays (Steady l moves (scene.enter f number) base past)) :
    (inFrame l.program frame body).Stays (Steady l moves scene base past) := by
  intro t ht
  have hkeeps := hbody t.fresh (ht.from_enter hscene f) (t.push frame) (ht.enter hframe htasks)
  unfold inFrame
  cases houtcome : body (t.push frame) with
  | done a t' =>
      rw [houtcome] at hkeeps
      exact hkeeps.leave _
  | failed e t' =>
      rw [houtcome] at hkeeps
      exact hkeeps.leave _
  | unfinished => trivial

section Calls

variable (hwell : l.program.WellFormed)

include hwell

theorem stay_actions {fuel : Nat} (hcalls : CallsSteady l moves fuel) (hscene : scene.From base) :
    (actions moves l.program (l.tracedInvoke moves fuel)).Stay (scene.Text l.program)
      (Steady l moves scene base past) where
  raise := fun _ _ ht => ht
  reads := fun pos _ => stays_act fun _ => keeps_readVar _ pos
  writes := by
    intro m id v pos _ _
    exact stays_act fun _ => keeps_writeVar_of (fun _ hm hstore => hm.store? hstore) pos
  calls := fun values pos _ => hcalls scene base past _ values pos hscene
  starts := fun pos values htext => stays_startTask hwell hscene hcalls htext values pos
  awaits := fun pos htext => stays_awaitTask hwell hscene htext pos
  exhausted := fun _ ht => ht

theorem callsSteady_invoke (fuel : Nat) : CallsSteady l moves fuel := by
  -- By induction on the fuel: a call enters a scene of its own and leaves it again, and its body
  -- is kept steady by calls with less fuel.
  induction fuel with
  | zero => exact fun _ _ _ _ _ _ _ _ ht => ht
  | succ fuel ih =>
      intro scene base past f values pos hscene
      cases hbody : (l.program.function f).body with
      | none =>
          simp only [Loaded.tracedInvoke, hbody]
          apply stays_act
          intro log
          apply keeps_invoke (fun _ _ hm => ⟨hm.globals, hm.frames, hm.tasks⟩)
          intro block hblock
          cases hbody.symm.trans hblock
      | some block =>
          simp only [Loaded.tracedInvoke, hbody]
          have hframe : (Eval.callFrame l.program f values : Frame).IsOf l.program f :=
            (holds_callFrame hwell.tables values).1
          refine (stays_inFrame hscene hframe rfl ?_).bind ?_
          · intro number hfrom
            apply stays_stmts (stay_actions hwell ih hfrom) fuel
            intro m hm
            show m ∈ l.program.mentionsOf f
            rw [Program.mentionsOf_of_body hbody]
            exact hm
          · intro flow
            exact stays_act fun _ => keeps_checkResult _ pos _

end Calls
end Traced

/-!
# Sessions
-/

structure Traced.Idle {σ : Type} (l : Loaded σ) (moves : Nat -> Move σ) (t : Traced σ) : Prop where
  stack : t.scene.stack = []
  steady : t.Steady l moves t.scene 0 []

section Sessions

variable {σ : Type} {l : Loaded σ} {moves : Nat -> Move σ} {t : Traced σ}

theorem Traced.Idle.from (h : t.Idle l moves) : t.scene.From 0 where
  nodup := by
    rw [Scene.numbers, h.stack]
    exact List.nodup_singleton _
  le := fun _ _ => Nat.zero_le _

theorem Traced.idle_initial (htables : l.program.Tables) (host : σ) :
    (initial l.program host).Idle l moves where
  stack := rfl
  steady := by
    have hnone : forall e : TaskEvent σ, e ∈ [] -> forall set, e.setOf l.program ≠ some set :=
      fun _ he => nomatch he
    have hglobals : (Machine.initialGlobals l.program).length = l.program.globalCount :=
      (Machine.typed_initial (ρ := TaskResult) htables host).globals.length
    refine ⟨rfl, ⟨hglobals, .nil, TaskList.shows_empty fun e he => hnone e he 0⟩, ?_, ?_, .nil, [],
      rfl, ?_⟩
    · intro set hset
      rw [List.mem_singleton.mp hset]
      exact Nat.zero_lt_one
    · exact fun e he set hset => absurd hset (hnone e he set)
    · exact fun e he set hset => absurd hset (hnone e he set)

theorem stays_idle {α : Type} {x : Tracing σ α}
    (h : forall scene, scene.From 0 -> scene.stack = [] -> x.Stays (Traced.Steady l moves scene 0 [])) :
    x.Stays (Traced.Idle l moves) := by
  intro t ht
  have hx := h t.scene ht.from ht.stack t ht.steady
  have hidle : forall {t' : Traced σ}, t'.Steady l moves t.scene 0 [] -> t'.Idle l moves := by
    intro t' ht'
    have hscene := ht'.stands
    exact ⟨hscene ▸ ht.stack, hscene.symm ▸ ht'⟩
  cases houtcome : x t with
  | done a t' =>
      rw [houtcome] at hx
      exact hidle hx
  | failed e t' =>
      rw [houtcome] at hx
      exact hidle hx
  | unfinished => trivial

theorem stays_leaks (flow : Flow) :
    Run.Stays (Traced.Idle l moves) (do
      let leaked ← Traced.act moves (Loaded.takeLeaks l.program)
      Run.modify Traced.renewHome
      return { result := flow.value?, leaked := leaked : RunReport }) := by
  intro t ht
  have hmoved := ht.steady.moved
  have hempty : TaskList.empty.Shows l.program t.log t.fresh := by
    apply TaskList.shows_empty
    intro e he hset
    exact Nat.lt_irrefl _ (ht.steady.sets e he _ hset)
  refine ⟨ht.stack, rfl, ⟨hmoved.machine.globals, hmoved.machine.frames, hempty⟩, ?_, ?_,
    hmoved.right, hmoved.since⟩
  · intro set hset
    rcases List.mem_cons.mp hset with rfl | hset
    · exact Nat.lt_succ_self _
    · exact Nat.lt_succ_of_lt (hmoved.numbers set (List.mem_cons_of_mem _ hset))
  · exact fun e he set hset => Nat.lt_succ_of_lt (hmoved.sets e he set hset)

variable (hwell : l.program.WellFormed)

include hwell

theorem idle_run (fuel : Nat) : (l.tracedRun moves fuel).Stays (Traced.Idle l moves) := by
  have hroot : (Walk.stmts (Traced.actions moves l.program (l.tracedInvoke moves fuel)) l.program fuel
      l.program.root).Stays (Traced.Idle l moves) := by
    apply stays_idle
    intro scene hscene hstack
    apply stays_stmts (Traced.stay_actions hwell (Traced.callsSteady_invoke hwell fuel) hscene) fuel
    intro m hm
    rw [Scene.Text, hstack]
    exact hm
  exact hroot.bind stays_leaks

theorem idle_callFunction (fuel : Nat) (f : FunId) (args : List Value) :
    (l.tracedCallFunction moves fuel f args).Stays (Traced.Idle l moves) := by
  apply stays_idle
  intro scene hscene _
  unfold Loaded.tracedCallFunction
  by_cases harity : args.length ≠ (l.program.function f).params.length
  · simp only [if_pos harity]
    exact Traced.stays_act fun _ => keeps_failAt _ _
  · simp only [if_neg harity]
    refine (Traced.stays_act fun _ => ?_).bind fun _ => ?_
    · exact (keeps_checkArguments f _ _ args).mono fun _ _ => trivial
    · exact Traced.callsSteady_invoke hwell fuel scene 0 [] f args _ hscene

theorem idle_between {host : σ} (h : l.TracedBetween moves host t) : t.Idle l moves := by
  induction h with
  | start => exact Traced.idle_initial hwell.tables host
  | run fuel _ hrun ih => exact (idle_run hwell fuel).of_state ih hrun
  | call fuel args _ _ hcall ih => exact (idle_callFunction hwell fuel _ args).of_state ih hcall

end Sessions
/-!
# Reading the log
-/

def TaskEvent.Same (p : Program) (d e : TaskEvent σ) : Prop :=
  d.setOf p = e.setOf p ∧ d.target = e.target

/-- The await is answered with the value of the last call that was started for its variable
in its set, and with no value a second time. -/
structure TaskEvent.Served {σ : Type} (l : Loaded σ) (moves : Nat -> Move σ) (log : List (TaskEvent σ))
    (e : TaskEvent σ) (pos : Pos) (answer : Except RuntimeError (Option Value)) : Prop where
  own : forall {found}, answer = .ok found -> exists mid start before task value,
    log = mid ++ start :: before ∧ start.Same l.program e ∧
    (forall d, d ∈ mid -> ¬d.Same l.program e) ∧ start.change = .started task ∧
    l.Answers moves task before ∧ task.result = .ok (some value) ∧ found = some value
  once : forall {mid other before}, log = mid ++ other :: before -> other.Same l.program e ->
    other.started? = none -> (forall d, d ∈ mid -> d.Same l.program e -> d.started? = none) ->
    answer =
      .error { cause := .unknownAsyncTarget (l.program.variableAt e.target).name, pos := pos }

section Reading

variable {p : Program} {set : Nat} {target : VarId}

theorem TaskEvent.started?_eq_some {e : TaskEvent σ} {task : StartedTask σ} (h : e.started? = some task) :
    e.change = .started task := by
  rw [started?] at h
  cases hchange : e.change with
  | started other =>
      rw [hchange] at h
      cases h
      rfl
  | awaited pos answer =>
      rw [hchange] at h
      cases h

theorem pendingIn_eq_some {log : List (TaskEvent σ)} {task : StartedTask σ}
    (h : pendingIn p set target log = some task) : exists mid start before,
      log = mid ++ start :: before ∧ start.setOf p = some set ∧ start.target = target ∧
      (forall d, d ∈ mid -> ¬(d.setOf p = some set ∧ d.target = target)) ∧
      start.change = .started task := by
  induction log with
  | nil => cases h
  | cons e log ih =>
      rw [pendingIn] at h
      by_cases hon : e.setOf p = some set ∧ e.target = target
      · rw [if_pos hon] at h
        exact ⟨[], e, log, rfl, hon.1, hon.2, fun _ hd => absurd hd List.not_mem_nil,
          TaskEvent.started?_eq_some h⟩
      · rw [if_neg hon] at h
        rcases ih h with ⟨mid, start, before, hlog, hset, htarget, hmid, hchange⟩
        refine ⟨e :: mid, start, before, congrArg (e :: ·) hlog, hset, htarget, ?_, hchange⟩
        intro d hd
        rcases List.mem_cons.mp hd with rfl | hd
        · exact hon
        · exact hmid d hd

theorem pendingIn_eq_none {mid before : List (TaskEvent σ)} {other : TaskEvent σ}
    (hset : other.setOf p = some set) (htarget : other.target = target)
    (hother : other.started? = none)
    (hmid : forall d, d ∈ mid -> d.setOf p = some set -> d.target = target -> d.started? = none) :
    pendingIn p set target (mid ++ other :: before) = none := by
  induction mid with
  | nil =>
      rw [List.nil_append, pendingIn, if_pos ⟨hset, htarget⟩]
      exact hother
  | cons d mid ih =>
      rw [List.cons_append, pendingIn]
      by_cases hon : d.setOf p = some set ∧ d.target = target
      · rw [if_pos hon]
        exact hmid d List.mem_cons_self hon.1 hon.2
      · rw [if_neg hon]
        exact ih fun d' hd' => hmid d' (List.mem_cons_of_mem d hd')

variable {σ : Type} {l : Loaded σ} {moves : Nat -> Move σ} {e : TaskEvent σ}

theorem LogRight.right {after log : List (TaskEvent σ)} (h : LogRight l moves (after ++ e :: log)) :
    e.Right l moves log ∧ LogRight l moves log := by
  induction after with
  | nil =>
      cases h with
      | cons hright hlog => exact ⟨hright, hlog⟩
  | cons _ after ih =>
      cases h with
      | cons _ hlog => exact ih hlog

theorem LogRight.served {log : List (TaskEvent σ)} (hlog : LogRight l moves log)
    (hright : e.Right l moves log) {pos : Pos} {answer : Except RuntimeError (Option Value)}
    (hchange : e.change = .awaited pos answer) : e.Served l moves log pos answer := by
  have hawait := hright.awaited pos answer hchange
  constructor
  · intro found hfound
    rcases hawait.delivers hfound with ⟨task, value, hpending, hresult, hvalue⟩
    rcases Option.bind_eq_some_iff.mp hpending with ⟨set, hset, htask⟩
    rcases pendingIn_eq_some htask with ⟨mid, start, before, hsplit, hstart, htarget, hmid, hstarted⟩
    have hanswers := ((hsplit ▸ hlog).right.1.started task hstarted).2.2.2
    refine ⟨mid, start, before, task, value, hsplit, ⟨hstart.trans hset.symm, htarget⟩, ?_,
      hstarted, hanswers, hresult, hvalue⟩
    intro d hd hsame
    exact hmid d hd ⟨hsame.1.trans hset, hsame.2⟩
  · intro mid other before hsplit hsame hother hmid
    apply hawait.refuses.mpr
    cases hset : e.setOf l.program with
    | none => rfl
    | some set =>
        rw [Option.bind_some, hsplit]
        apply pendingIn_eq_none (hsame.1.trans hset) hsame.2 hother
        intro d hd hof htarget
        exact hmid d hd ⟨hof.trans hset.symm, htarget⟩

end Reading

def capturedMoves : Nat -> Move Unit :=
  fun _ => { host := id, stores := [(0, .int 7)] }

end Scriptlet
