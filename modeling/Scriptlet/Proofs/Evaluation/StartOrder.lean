import Scriptlet.Proofs.Evaluation.AwaitedCalls
import Scriptlet.Proofs.Evaluation.UnawaitedCalls

/-!
# The order of leaks

As long as no task is replaced before its await, a set keeps its tasks in the order in which
they were started.  The sets are reported one after another: those of frames when the frames
are left, and the set of the globals at the end of the run.  So the report is in start order
within each set, and a call of a frame stands before every call that is left to the globals,
whichever was started first.
-/

namespace Scriptlet

open scoped List

/-!
# Books
-/

def startedIn (p : Program) (set : Nat) (book : List AsyncEvent) : List LeakedTask :=
  (book.filter (·.set == some set)).filterMap (·.call? p)

def Unreplaced (p : Program) (book : List AsyncEvent) : Prop :=
  forall before e after, book = before ++ e :: after -> e.step ≠ .awaited ->
    forall set, e.set = some set -> pendingCall p set e.target before = none

section Books

variable {p : Program} {set : Nat} {book : List AsyncEvent} {e : AsyncEvent}

theorem startedIn_sublist (e : AsyncEvent) : startedIn p set book <+ startedIn p set (book ++ [e]) :=
  ((List.sublist_append_left book [e]).filter _).filterMap _

theorem startedIn_concat (hset : e.set = some set) :
    startedIn p set (book ++ [e]) = startedIn p set book ++ (e.call? p).toList := by
  have hself : [e].filter (·.set == some set) = [e] := by simp [hset]
  rw [startedIn, List.filter_append, List.filterMap_append, hself]
  cases hcall : e.call? p <;> simp [startedIn, hcall]

theorem Unreplaced.before (h : Unreplaced p (book ++ [e])) : Unreplaced p book := by
  intro before d after hsplit
  exact h before d (after ++ [e]) (by rw [hsplit, List.append_assoc, List.cons_append])

theorem Unreplaced.last (h : Unreplaced p (book ++ [e])) (hstep : e.step ≠ .awaited)
    (hset : e.set = some set) : pendingCall p set e.target book = none :=
  h book e [] rfl hstep set hset

end Books

/-!
# Sets of tasks
-/

namespace TaskList

/-- What has leaked into the set so far is known, and what is pending in it stands in start
order. -/
structure Orders (p : Program) (book : List AsyncEvent) (gone : List LeakedTask) (set : Nat)
    (tasks : TaskList) : Prop where
  leaked : tasks.leaked = gone
  pending : tasks.pending.map (leakOf (Eval.variableName p)) <+ startedIn p set book

variable {p : Program} {book : List AsyncEvent} {gone : List LeakedTask} {set : Nat}
  {tasks : TaskList} {e : AsyncEvent}

theorem Orders.elsewhere (h : tasks.Orders p book gone set) (e : AsyncEvent) :
    tasks.Orders p (book ++ [e]) gone set :=
  ⟨h.leaked, h.pending.trans (startedIn_sublist e)⟩

theorem Orders.insert (h : tasks.Orders p book gone set) {task : PendingTask}
    (hset : e.set = some set) (hcall : e.call? p = some (leakOf (Eval.variableName p) task))
    (hnone : tasks.find? task.target = none) :
    (tasks.insert (Eval.variableName p) task).Orders p (book ++ [e]) gone set where
  leaked := by
    rw [TaskList.insert, hnone]
    exact (List.append_nil _).trans h.leaked
  pending := by
    rw [TaskList.insert, replace_eq_append hnone, startedIn_concat hset, hcall, List.map_append]
    exact h.pending.append_right _

theorem Orders.erase (h : tasks.Orders p book gone set) (e : AsyncEvent) (target : VarId) :
    (tasks.erase target).Orders p (book ++ [e]) gone set where
  leaked := h.leaked
  pending := ((List.eraseP_sublist.map _).trans h.pending).trans (startedIn_sublist e)

end TaskList

/-!
# Machines
-/

structure Grouped (p : Program) (book : List AsyncEvent) (groups : List (Nat × List LeakedTask)) :
    Prop where
  distinct : (groups.map (·.1)).Nodup
  ordered : forall group, group ∈ groups -> group.2 <+ startedIn p group.1 book

theorem Grouped.entered {p : Program} {book : List AsyncEvent}
    {groups : List (Nat × List LeakedTask)} (h : Grouped p book groups) (e : AsyncEvent) :
    Grouped p (book ++ [e]) groups where
  distinct := h.distinct
  ordered := fun group hgroup => (h.ordered group hgroup).trans (startedIn_sublist e)

theorem grouped_concat {p : Program} {book : List AsyncEvent} {groups : List (Nat × List LeakedTask)}
    {set : Nat} {last : List LeakedTask} :
    Grouped p book (groups ++ [(set, last)]) <->
      Grouped p book groups ∧ set ∉ groups.map (·.1) ∧ last <+ startedIn p set book := by
  have hdistinct : ((groups ++ [(set, last)]).map (·.1)).Nodup <->
      set ∉ groups.map (·.1) ∧ (groups.map (·.1)).Nodup := by
    rw [List.map_append, List.map_singleton, List.nodup_append_comm, List.singleton_append,
      List.nodup_cons]
  have hordered : (forall group, group ∈ groups ++ [(set, last)] ->
        group.2 <+ startedIn p group.1 book) <->
      (forall group, group ∈ groups -> group.2 <+ startedIn p group.1 book) ∧
        last <+ startedIn p set book := by
    rw [List.forall_mem_append, List.forall_mem_singleton]
  constructor
  · intro h
    have hapart := hdistinct.mp h.distinct
    have hsublists := hordered.mp h.ordered
    exact ⟨⟨hapart.2, hsublists.1⟩, hapart.1, hsublists.2⟩
  · intro h
    exact ⟨hdistinct.mpr ⟨h.2.1, h.1.distinct⟩, hordered.mpr ⟨h.1.ordered, h.2.2⟩⟩

/-- The frame of a numbered call, from whose set nothing has leaked. -/
structure Frame.Orders (p : Program) (book : List AsyncEvent) (frame : Frame)
    (call : NumberedCall) : Prop where
  owner : frame.owner = call.function
  tasks : frame.tasks.Orders p book [] call.number

/-- All sets stand in start order.  What has leaked are groups of calls of frames that were
left. -/
structure Machine.Orders {σ : Type} (p : Program) (book : List AsyncEvent) (scene : Scene)
    (groups : List (Nat × List LeakedTask)) (m : Machine σ) : Prop where
  sets : m.Numbered (Frame.Orders p book) (TaskList.Orders p book (groups.flatMap (·.2))) scene
  grouped : Grouped p book groups
  apart : forall set, set ∈ scene.numbers -> set ∉ groups.map (·.1)

namespace Machine

variable {σ : Type} {p : Program} {book : List AsyncEvent} {scene : Scene} {m m' : Machine σ}
  {groups : List (Nat × List LeakedTask)}

theorem Numbered.and {R R' : Frame -> NumberedCall -> Prop} {T T' : Nat -> TaskList -> Prop}
    (h : m.Numbered R T scene) (h' : m.Numbered R' T' scene) :
    m.Numbered (fun frame call => R frame call ∧ R' frame call)
      (fun set tasks => T set tasks ∧ T' set tasks) scene where
  frames := by
    have hboth : forall {frames stack}, List.Forall₂ R frames stack ->
        List.Forall₂ R' frames stack ->
        List.Forall₂ (fun frame call => R frame call ∧ R' frame call) frames stack := by
      intro frames stack hfirst hsecond
      induction hfirst with
      | nil => exact .nil
      | cons hframe _ ih =>
          cases hsecond with
          | cons hframe' hrest => exact .cons ⟨hframe, hframe'⟩ (ih hrest)
    exact hboth h.frames h'.frames
  tasks := ⟨h.tasks, h'.tasks⟩

theorem Orders.store? (h : m.Orders p book scene groups) {id : VarId} {value : Value}
    (hstore : m.store? p id value = some m') : m'.Orders p book scene groups where
  sets := h.sets.store? (fun hframe _ _ => ⟨hframe.owner, hframe.tasks⟩) hstore
  grouped := h.grouped
  apart := h.apart

theorem Orders.afterTask (h : m.Orders p book scene groups) (task : Machine σ) :
    (m.afterTask task).Orders p book scene groups :=
  ⟨⟨h.sets.frames, h.sets.tasks⟩, h.grouped, h.apart⟩

variable (hnodup : scene.numbers.Nodup) {e : AsyncEvent}

include hnodup

theorem Orders.start (h : m.Orders p book scene groups) (hbalances : m.Balances p book scene)
    (hset : e.set = scene.setFor p e.target) (hunreplaced : Unreplaced p (book ++ [e]))
    (hstep : e.step ≠ .awaited) {task : PendingTask} (htarget : e.target = task.target)
    (hcall : e.call? p = some (TaskList.leakOf (Eval.variableName p) task))
    (hupdate : m.updateTasks? p e.target (·.insert (Eval.variableName p) task) = some m') :
    m'.Orders p (book ++ [e]) scene groups where
  sets := by
    obtain ⟨set, hfound⟩ := h.sets.setFor_of_updateTasks? (·.owner) hupdate
    have he : e.set = some set := hset.trans hfound
    -- The book has nothing pending there, so neither has any set with this number.
    have hnone : forall tasks : TaskList, tasks.Accords p book set ->
        tasks.find? task.target = none := by
      intro tasks haccords
      have hfind := haccords.found e.target
      rw [hunreplaced.last hstep he, Option.map_eq_none_iff] at hfind
      exact htarget ▸ hfind
    refine (hbalances.sets.and h.sets).updateTasks? (·.1.owner) hnodup hfound ?_ ?_ ?_ ?_ hupdate
    · exact fun _ _ hframe _ => ⟨hframe.2.owner, hframe.2.tasks.elsewhere e⟩
    · intro frame call hframe hnumber
      have haccords := hframe.1.tasks
      have horders := hframe.2.tasks
      rw [hnumber] at haccords horders
      exact ⟨hframe.2.owner, hnumber ▸ horders.insert he hcall (hnone _ haccords)⟩
    · exact fun _ htasks _ => htasks.2.elsewhere e
    · exact fun tasks htasks => htasks.2.insert he hcall (hnone tasks htasks.1)
  grouped := h.grouped.entered e
  apart := h.apart

theorem Orders.await (h : m.Orders p book scene groups)
    (hupdate : m.updateTasks? p e.target (·.erase e.target) = some m') :
    m'.Orders p (book ++ [e]) scene groups where
  sets := by
    obtain ⟨set, hfound⟩ := h.sets.setFor_of_updateTasks? (·.owner) hupdate
    refine h.sets.updateTasks? (·.owner) hnodup hfound ?_ ?_ ?_ ?_ hupdate
    · exact fun _ _ hframe _ => ⟨hframe.owner, hframe.tasks.elsewhere e⟩
    · exact fun _ _ hframe _ => ⟨hframe.owner, hframe.tasks.erase e e.target⟩
    · exact fun _ htasks _ => htasks.elsewhere e
    · exact fun _ htasks => htasks.erase e e.target
  grouped := h.grouped.entered e
  apart := h.apart

omit hnodup in
theorem Orders.pop {f : FunId} {number : Nat} (hnodup : (scene.enter f number).numbers.Nodup)
    (h : m.Orders p book (scene.enter f number) groups) :
    exists last, (m.pop (Eval.variableName p)).Orders p book scene (groups ++ [(number, last)]) := by
  obtain ⟨⟨hframes, htasks⟩, hgrouped, hapart⟩ := h
  have hperm : (scene.enter f number).numbers ~ number :: scene.numbers :=
    List.Perm.swap number scene.home _
  have hnew : number ∉ scene.numbers := (List.nodup_cons.mp (hperm.nodup_iff.mp hnodup)).1
  rw [Machine.pop]
  cases hstack : m.frames with
  | nil =>
      rw [hstack] at hframes
      cases hframes
  | cons frame rest =>
      rw [hstack] at hframes
      cases hframes with
      | cons hframe hrest =>
          have hlast : frame.tasks.leaks (Eval.variableName p) <+ startedIn p number book := by
            rw [TaskList.leaks, hframe.tasks.leaked]
            exact hframe.tasks.pending
          have hnumber := hapart number (Scene.mem_enter.mpr (.inl rfl))
          refine ⟨frame.tasks.leaks (Eval.variableName p), ⟨hrest, ?_, htasks.pending⟩,
            grouped_concat.mpr ⟨hgrouped, hnumber, hlast⟩, ?_⟩
          · show m.tasks.leaked ++ frame.tasks.leaks (Eval.variableName p) = _
            rw [htasks.leaked, List.flatMap_append, List.flatMap_singleton]
          · intro set hset hmem
            rw [List.map_append, List.map_singleton, List.mem_append, List.mem_singleton] at hmem
            cases hmem with
            | inl hmem => exact hapart set (Scene.mem_enter.mpr (.inr hset)) hmem
            | inr hmem =>
                cases hmem
                exact hnew hset

end Machine

/-!
# Evaluators
-/

namespace Booked

variable {σ α : Type} {p : Program} {scene : Scene}

def InGroups (p : Program) (scene : Scene) (t : Booked σ) : Prop :=
  exists groups, t.machine.Orders p t.book scene groups ∧ forall group, group ∈ groups ->
    group.1 < t.fresh

/-- A balanced evaluator that is in order as long as no task has been replaced. -/
structure Ordered (p : Program) (scene : Scene) (t : Booked σ) : Prop where
  balanced : t.Balanced p scene
  groups : Unreplaced p t.book -> t.InGroups p scene

theorem InGroups.enter {t : Booked σ} (h : t.InGroups p scene) {f : FunId} {frame : Frame}
    (howner : frame.owner = f) (htasks : frame.tasks = .empty) :
    (t.push frame).InGroups p (scene.enter f t.fresh) := by
  obtain ⟨groups, horders, hfresh⟩ := h
  have hempty : frame.tasks.Orders p t.book [] t.fresh := by
    rw [htasks]
    exact ⟨rfl, List.nil_sublist _⟩
  refine ⟨groups, ⟨⟨.cons ⟨howner, hempty⟩ horders.sets.frames, horders.sets.tasks⟩,
    horders.grouped, ?_⟩, fun group hgroup => Nat.lt_succ_of_lt (hfresh group hgroup)⟩
  intro set hset hmem
  rcases Scene.mem_enter.mp hset with rfl | hset
  · obtain ⟨group, hgroup, hnumber⟩ := List.mem_map.mp hmem
    exact Nat.lt_irrefl _ (hnumber ▸ hfresh group hgroup)
  · exact horders.apart set hset hmem

theorem InGroups.leave {t : Booked σ} {f : FunId} {number : Nat}
    (hnodup : (scene.enter f number).numbers.Nodup)
    (hnumbers : forall set, set ∈ (scene.enter f number).numbers -> set < t.fresh)
    (h : t.InGroups p (scene.enter f number)) :
    (t.pop (Eval.variableName p)).InGroups p scene := by
  obtain ⟨groups, horders, hfresh⟩ := h
  obtain ⟨last, hpopped⟩ := horders.pop hnodup
  refine ⟨groups ++ [(number, last)], hpopped, ?_⟩
  intro group hgroup
  rcases List.mem_append.mp hgroup with hgroup | hgroup
  · exact hfresh group hgroup
  · rw [List.mem_singleton.mp hgroup]
    exact hnumbers number (Scene.mem_enter.mpr (.inl rfl))

abbrev Ordering (p : Program) (scene : Scene) (x : Booking σ α) : Prop :=
  x.Leads (Ordered p scene) fun _ => True

theorem Balancing.ordering {x : Booking σ α} (hbalancing : Balancing p scene x)
    (hgroups : forall t, t.Ordered p scene ->
      (x t).Satisfies (fun _ t' => Unreplaced p t'.book -> t'.InGroups p scene) fun _ => True) :
    Ordering p scene x := by
  intro t ht
  have hbalanced := hbalancing t ht.balanced
  have hordered := hgroups t ht
  cases houtcome : x t with
  | done a t' =>
      rw [houtcome] at hbalanced hordered
      exact ⟨hbalanced, hordered⟩
  | failed e t' => trivial
  | unfinished => trivial

theorem ordering_act {x : Eval σ α} (hbalances : forall book, KeepsAll (Machine.Balances p book scene) x)
    (horders : forall book groups, KeepsAll (Machine.Orders p book scene groups) x) :
    Ordering p scene (act x) := by
  apply (balancing_act hbalances).ordering
  intro t ht
  unfold act
  cases houtcome : x t.machine with
  | failed e m => trivial
  | unfinished => trivial
  | done a m =>
      intro hunreplaced
      obtain ⟨groups, hmachine, hfresh⟩ := ht.groups hunreplaced
      exact ⟨groups, ((horders t.book groups).of_done hmachine houtcome).2, hfresh⟩

theorem ordering_enter {x : Eval σ Unit} {target : VarId} {step : AsyncStep}
    (hentered : forall {m book}, m.Balances p book scene -> (x m).Satisfies
      (fun _ m' => m'.Entered p book scene (scene.event p target step)) fun _ => True)
    (horders : forall {m m' book groups}, m.Balances p book scene ->
      Unreplaced p (book ++ [scene.event p target step]) -> m.Orders p book scene groups ->
      x m = .done () m' -> m'.Orders p (book ++ [scene.event p target step]) scene groups) :
    Ordering p scene (act x >>= fun _ => Run.modify (enter p target step)) := by
  apply (balancing_enter hentered).ordering
  intro t ht
  rw [Run.bind_apply, act]
  cases houtcome : x t.machine with
  | failed e m => trivial
  | unfinished => trivial
  | done _ m =>
      intro hunreplaced
      have hstands := ht.balanced.stands
      have hbook : (enter p target step { t with machine := m }).book =
          t.book ++ [scene.event p target step] := by
        rw [enter, ← hstands]
      rw [hbook] at hunreplaced
      obtain ⟨groups, hmachine, hfresh⟩ := ht.groups hunreplaced.before
      refine ⟨groups, ?_, hfresh⟩
      rw [hbook]
      exact horders ht.balanced.machine hunreplaced hmachine houtcome

theorem keepsOrders_writeVar {book : List AsyncEvent} {groups : List (Nat × List LeakedTask)}
    (id : VarId) (value : Value) (pos : Pos) :
    KeepsAll (fun m : Machine σ => m.Orders p book scene groups) (Eval.writeVar p id value pos) :=
  keeps_writeVar_of (fun _ hm hstore => hm.store? hstore) pos

section Tasks

variable (hnodup : scene.numbers.Nodup) {m m' : Machine σ} {book : List AsyncEvent}
  {groups : List (Nat × List LeakedTask)} (h : m.Orders p book scene groups)

include hnodup h

theorem orders_startCall (hbalances : m.Balances p book scene) {task : Invoke σ} {pos : Pos}
    {target : VarId} {f : FunId} {values : List Value}
    (hunreplaced : Unreplaced p (book ++ [scene.event p target (.started f pos)]))
    (hdone : Eval.startCall p task pos target f values m = .done () m') :
    m'.Orders p (book ++ [scene.event p target (.started f pos)]) scene groups := by
  rcases startCall_done hdone with ⟨ended, result, hupdate⟩
  have hafter : (m.afterTask ended).Balances p book scene :=
    ⟨⟨hbalances.sets.frames, hbalances.sets.tasks⟩, hbalances.owed⟩
  have hstep : AsyncStep.started f pos ≠ .awaited := fun heq => nomatch heq
  exact (h.afterTask ended).start hnodup hafter rfl hunreplaced hstep rfl rfl hupdate

theorem orders_awaitTask {pos : Pos} {target : VarId}
    (hdone : Eval.awaitTask p pos target m = .done () m') :
    m'.Orders p (book ++ [scene.event p target .awaited]) scene groups := by
  have htaken : forall {task : PendingTask} {m'' : Machine σ},
      Eval.takeTask p target pos m = .done task m'' ->
      m''.Orders p (book ++ [scene.event p target .awaited]) scene groups := by
    intro task m'' htake
    unfold Eval.takeTask at htake
    split at htake
    · rename_i hupdate
      cases htake
      exact h.await hnodup hupdate
    · cases htake
  rw [Eval.awaitTask, Run.bind_apply] at hdone
  cases htake : Eval.takeTask p target pos m with
  | failed e m'' =>
      rw [htake] at hdone
      cases hdone
  | unfinished =>
      rw [htake] at hdone
      cases hdone
  | done task m'' =>
      have hordered := htaken htake
      rw [htake] at hdone
      cases hresult : task.result with
      | error e =>
          simp only [hresult] at hdone
          cases hdone
      | ok result =>
          simp only [hresult] at hdone
          cases result with
          | none => cases hdone
          | some value => exact ((keepsOrders_writeVar target value pos).of_done hordered hdone).2

end Tasks

theorem ordering_inFrame {f : FunId} {frame : Frame} (howner : frame.owner = f)
    (htasks : frame.tasks = .empty) (hnodup : scene.numbers.Nodup) {body : Booking σ α}
    (hbody : forall number, (scene.enter f number).numbers.Nodup ->
      Ordering p (scene.enter f number) body) : Ordering p scene (inFrame p frame body) := by
  intro t ht
  have hnew : t.fresh ∉ scene.numbers :=
    fun hmem => Nat.lt_irrefl _ (ht.balanced.numbers _ hmem)
  have hnumbers : (scene.enter f t.fresh).numbers.Nodup := Scene.nodup_enter hnodup hnew
  have hentered : (t.push frame).Ordered p (scene.enter f t.fresh) :=
    ⟨ht.balanced.enter howner htasks, fun hunreplaced => (ht.groups hunreplaced).enter howner htasks⟩
  have hinside := hbody t.fresh hnumbers (t.push frame) hentered
  unfold inFrame
  cases houtcome : body (t.push frame) with
  | done a t' =>
      rw [houtcome] at hinside
      exact ⟨hinside.balanced.leave, fun hunreplaced =>
        (hinside.groups hunreplaced).leave hnumbers hinside.balanced.numbers⟩
  | failed e t' => trivial
  | unfinished => trivial

/-!
# Runs
-/

def CallsOrder (p : Program)
    (invoke : FunId -> List Value -> Pos -> Booking σ (Option Value)) : Prop :=
  forall scene f values pos, scene.numbers.Nodup -> Ordering p scene (invoke f values pos)

theorem ordering_actions (task : Invoke σ)
    {invoke : FunId -> List Value -> Pos -> Booking σ (Option Value)} (hcalls : CallsOrder p invoke)
    (hnodup : scene.numbers.Nodup) :
    (actions p task invoke).Lead (fun _ => True) (Ordered p scene) fun _ => True where
  raise := fun _ _ _ => trivial
  reads := fun pos _ => ordering_act (fun _ => keeps_readVar _ pos) fun _ _ => keeps_readVar _ pos
  writes := fun v pos _ _ =>
    ordering_act (fun _ => keepsBalances_writeVar _ v pos) fun _ _ => keepsOrders_writeVar _ v pos
  calls := fun values pos _ => hcalls scene _ values pos hnodup
  starts := fun pos values _ =>
    ordering_enter (fun hm => entered_startCall hnodup hm task pos _ _ values)
      fun hbalances hunreplaced hm hdone => orders_startCall hnodup hm hbalances hunreplaced hdone
  awaits := fun pos _ =>
    ordering_enter (fun hm => entered_awaitTask hnodup hm pos _)
      fun _ _ hm hdone => orders_awaitTask hnodup hm hdone
  exhausted := fun _ _ => trivial

theorem callsOrder_invoke (l : Loaded σ) (fuel : Nat) :
    CallsOrder l.program (l.bookedInvoke fuel) := by
  -- By induction on the fuel, as for balanced evaluators.
  induction fuel with
  | zero => exact fun _ _ _ _ _ _ _ => trivial
  | succ fuel ih =>
      intro scene f values pos hnodup
      cases hbody : (l.program.function f).body with
      | none =>
          simp only [Loaded.bookedInvoke, hbody]
          have hnative : forall {inv : Machine σ -> Prop},
              (forall m host, inv m -> inv { m with host := host }) ->
              KeepsAll inv (l.invoke (fuel + 1) f values pos) := by
            intro inv hhost
            apply keeps_invoke hhost
            intro block hblock
            rw [hbody] at hblock
            cases hblock
          apply ordering_act
          · exact fun _ => hnative fun m host hm => ⟨⟨hm.sets.frames, hm.sets.tasks⟩, hm.owed⟩
          · exact fun _ _ => hnative fun m host hm =>
              ⟨⟨hm.sets.frames, hm.sets.tasks⟩, hm.grouped, hm.apart⟩
      | some block =>
          simp only [Loaded.bookedInvoke, hbody]
          have hinside : Ordering l.program scene
              (inFrame l.program (Eval.callFrame l.program f values)
                (Walk.stmts (actions l.program (l.invoke fuel) (l.bookedInvoke fuel)) l.program fuel
                  block.body)) := by
            refine ordering_inFrame rfl rfl hnodup fun number hnodup => ?_
            exact leads_stmts (ordering_actions _ ih hnodup) fuel fun _ _ => trivial
          apply hinside.bind
          intro flow
          exact ordering_act (fun _ => keeps_checkResult _ pos _) fun _ _ => keeps_checkResult _ pos _

theorem ordered_initial (p : Program) (host : σ) :
    (initial p host).Ordered p { home := 0, stack := [] } where
  balanced := balanced_initial p host
  groups := fun _ =>
    ⟨[], ⟨⟨.nil, ⟨rfl, List.nil_sublist _⟩⟩, ⟨List.nodup_nil, fun _ hgroup => nomatch hgroup⟩,
      fun _ _ hmem => nomatch hmem⟩, fun _ hgroup => nomatch hgroup⟩

/-- The report lists the calls of one set after those of another, each of them in start order.
The calls into globals come last. -/
def ListsInOrder (p : Program) (report : RunReport) (t : Booked σ) : Prop :=
  exists groups last, Grouped p t.book (groups ++ [(0, last)]) ∧
    report.leaked = (groups ++ [(0, last)]).flatMap (·.2)

theorem listsInOrder_bookedRun (l : Loaded σ) (fuel : Nat) (host : σ) :
    (l.bookedRun fuel (.initial l.program host)).Satisfies
      (fun report t => Unreplaced l.program t.book -> t.ListsInOrder l.program report)
      fun _ => True := by
  have hroot : Ordering l.program { home := 0, stack := [] }
      (Walk.stmts (actions l.program (l.invoke fuel) (l.bookedInvoke fuel)) l.program fuel
        l.program.root) := by
    have hnodup : Scene.numbers { home := 0, stack := [] } |>.Nodup := List.nodup_singleton 0
    have hacts := ordering_actions (l.invoke fuel) (callsOrder_invoke l fuel) hnodup
    exact leads_stmts hacts fuel fun _ _ => trivial
  apply satisfies_bind (hroot _ (ordered_initial l.program host))
  intro flow t ht
  show Unreplaced l.program t.book -> _
  intro hunreplaced
  obtain ⟨groups, ⟨⟨_, htasks⟩, hgrouped, hapart⟩, _⟩ := ht.groups hunreplaced
  refine ⟨groups, t.machine.tasks.pending.map (TaskList.leakOf (Eval.variableName l.program)),
    grouped_concat.mpr ⟨hgrouped, hapart 0 List.mem_cons_self, htasks.pending⟩, ?_⟩
  show t.machine.tasks.leaks (Eval.variableName l.program) = _
  rw [TaskList.leaks, htasks.leaked, List.flatMap_append, List.flatMap_singleton]

end Booked

section Runs

variable {σ : Type} {l : Loaded σ} {host : σ} {fuel : Nat} {report : RunReport} {t : Booked σ}
  (hrun : l.bookedRun fuel (.initial l.program host) = .done report t)
  (hunreplaced : Unreplaced l.program t.book)

include hrun hunreplaced

/-- If no task of a run is replaced, then within each set its leaks are in start order. -/
theorem leaks_listed_by_set : t.ListsInOrder l.program report := by
  have hlists := Booked.listsInOrder_bookedRun l fuel host
  rw [hrun] at hlists
  exact hlists hunreplaced

/-- If all calls are started into globals, then the whole report is in start order. -/
theorem global_leaks_in_start_order (hglobal : forall e, e ∈ t.book -> e.set = some 0) :
    report.leaked <+ t.book.filterMap (·.call? l.program) := by
  obtain ⟨groups, last, hgrouped, hleaked⟩ := leaks_listed_by_set hrun hunreplaced
  obtain ⟨hgroups, hapart, hlast⟩ := grouped_concat.mp hgrouped
  -- The groups of frames are empty, since no call was started into their sets.
  have hnone : forall group, group ∈ groups -> group.2 = [] := by
    intro group hgroup
    have hmem : group.1 ∈ groups.map (·.1) := List.mem_map_of_mem hgroup
    have hempty : t.book.filter (·.set == some group.1) = [] := by
      rw [List.filter_eq_nil_iff]
      intro e he hset
      rw [hglobal e he, beq_iff_eq] at hset
      exact hapart (Option.some.inj hset ▸ hmem)
    have hsublist := hgroups.ordered group hgroup
    rw [startedIn, hempty] at hsublist
    exact List.sublist_nil.mp hsublist
  have hall : t.book.filter (·.set == some 0) = t.book := by
    rw [List.filter_eq_self]
    intro e he
    rw [hglobal e he, beq_self_eq_true]
  rw [startedIn, hall] at hlast
  rw [hleaked, List.flatMap_append, List.flatMap_eq_nil_iff.mpr hnone, List.nil_append,
    List.flatMap_singleton]
  exact hlast

end Runs
end Scriptlet
