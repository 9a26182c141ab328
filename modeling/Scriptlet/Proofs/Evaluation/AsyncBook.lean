import Scriptlet.Proofs.Evaluation.Tracing

/-!
# Books of async calls

An evaluator that keeps a book of its own tasks: every async call that it has executed, with
its function and position, and every await that has succeeded, in the order of time.  A set
of pending tasks has a number, so that the book tells frames of the same function apart.
What happens inside of tasks is not in the book.

Which calls were not awaited is read off the book alone, without the sets of the machine.
Apart from its book the evaluator does what the plain one does.
-/

namespace Scriptlet

/-!
# Books
-/

inductive AsyncStep where
  | started (function : FunId) (pos : Pos)
  /-- An await that has succeeded. -/
  | awaited
deriving DecidableEq, Repr

/-- Something that was done to the tasks into a variable. -/
structure AsyncEvent where
  /-- The set of tasks, if there is one. -/
  set : Option Nat
  target : VarId
  step : AsyncStep
deriving DecidableEq, Repr

namespace AsyncEvent

def isAbout (set : Option Nat) (target : VarId) (e : AsyncEvent) : Bool :=
  e.set == set && e.target == target

def awaitedIn (e : AsyncEvent) (later : List AsyncEvent) : Bool :=
  (later.find? (isAbout e.set e.target)).any (·.step == .awaited)

def call? (p : Program) (e : AsyncEvent) : Option LeakedTask :=
  match e.step with
  | .started f pos =>
      some { target := (p.variableAt e.target).name, function := (p.function f).name, pos := pos }
  | .awaited => none

def Settles (e : AsyncEvent) (before : List AsyncEvent) : Prop :=
  exists old start mid, before = old ++ start :: mid ∧ start.isAbout e.set e.target = true ∧
    start.step ≠ .awaited ∧ forall d, d ∈ mid -> d.isAbout e.set e.target = false

end AsyncEvent

def Scene.event (p : Program) (scene : Scene) (target : VarId) (step : AsyncStep) : AsyncEvent :=
  { set := scene.setFor p target, target := target, step := step }

def unawaited (p : Program) : List AsyncEvent -> List LeakedTask
  | [] => []
  | e :: later =>
      if e.awaitedIn later then unawaited p later
      else (e.call? p).toList ++ unawaited p later

/-!
# The evaluator
-/

/-- An evaluator with its book and the numbers of its sets. -/
structure Booked (host : Type) (ρ : Type := TaskResult) where
  machine : Machine host ρ
  scene : Scene
  /-- No set has this number or one above it. -/
  fresh : Nat
  book : List AsyncEvent

abbrev BookingOf (ρ host α : Type) : Type :=
  Run RuntimeError (Booked host ρ) α

abbrev Booking (host α : Type) : Type :=
  BookingOf TaskResult host α

namespace Booked

variable {σ ρ α : Type}

def initial (p : Program) (host : σ) : Booked σ ρ :=
  { machine := .initial p host, scene := { home := 0, stack := [] }, fresh := 1, book := [] }

def enter (p : Program) (target : VarId) (step : AsyncStep) (t : Booked σ ρ) :
    Booked σ ρ :=
  { t with book := t.book ++ [t.scene.event p target step] }

def push (frame : Frame ρ) (t : Booked σ ρ) : Booked σ ρ :=
  { t with
    machine := t.machine.push frame
    scene := { t.scene with stack := { function := frame.owner, number := t.fresh } :: t.scene.stack }
    fresh := t.fresh + 1 }

def pop (name : VarId -> String) (t : Booked σ ρ) : Booked σ ρ :=
  { t with
    machine := t.machine.pop name
    scene := { t.scene with stack := t.scene.stack.tail } }

def act (x : EvalOf ρ σ α) : BookingOf ρ σ α := fun t =>
  (x t.machine).mapState fun m => { t with machine := m }

def inFrame (p : Program) (frame : Frame) (body : Booking σ α) : Booking σ α := fun t =>
  (body (t.push frame)).mapState (pop (Eval.variableName p))

def actions (p : Program) (task : Invoke σ)
    (invoke : FunId -> List Value -> Pos -> Booking σ (Option Value)) :
    Actions (Run RuntimeError (Booked σ)) where
  raise := Run.fail
  readVar := fun id pos => act (Eval.readVar p id pos)
  writeVar := fun id value pos => act (Eval.writeVar p id value pos)
  call := invoke
  startTask := fun pos target f values => do
    act (Eval.startCall p task pos target f values)
    Run.modify (enter p target (.started f pos))
  awaitTask := fun pos target => do
    act (Eval.awaitTask p pos target)
    Run.modify (enter p target .awaited)
  exhausted := Run.exhausted

end Booked

namespace Loaded

variable {σ : Type} (l : Loaded σ)

def bookedInvoke : Nat -> FunId -> List Value -> Pos -> Booking σ (Option Value)
  | 0 => fun _ _ _ => Run.exhausted
  | fuel + 1 => fun f args pos =>
      match (l.program.function f).body with
      | none => Booked.act (l.invoke (fuel + 1) f args pos)
      | some block => do
          let acts := Booked.actions l.program (l.invoke fuel) (bookedInvoke fuel)
          let flow ← Booked.inFrame l.program (Eval.callFrame l.program f args)
            (Walk.stmts acts l.program fuel block.body)
          Booked.act (Eval.checkResult (l.program.function f) pos flow.value?)

def bookedRun (fuel : Nat) : Booking σ RunReport := do
  let acts := Booked.actions l.program (l.invoke fuel) (l.bookedInvoke fuel)
  let flow ← Walk.stmts acts l.program fuel l.program.root
  let leaked ← Booked.act (takeLeaks l.program)
  return { result := flow.value?, leaked := leaked }

end Loaded

/-!
# Without the book
-/

abbrev Books {σ α : Type} (x : Eval σ α) (y : Booking σ α) : Prop :=
  Run.Matches (fun e e' => e' = e) (fun m t => t.machine = m) False x y

section Books

variable {σ α : Type} {p : Program}

theorem Books.eq {x : Eval σ α} {y : Booking σ α} (h : Books x y) (t : Booked σ) :
    (y t).mapState (·.machine) = x t.machine := by
  have hmatches := h t.machine t rfl
  generalize x t.machine = first at hmatches
  generalize y t = second at hmatches
  cases hmatches with
  | done hm => exact congrArg (Outcome.done _) hm
  | failed he hm =>
      subst he
      exact congrArg (Outcome.failed _) hm
  | unfinished => rfl
  | cut hfalse => exact hfalse.elim

theorem books_act (x : Eval σ α) : Books x (Booked.act x) := by
  intro m t ht
  subst ht
  unfold Booked.act
  cases x t.machine with
  | done a m => exact .done rfl
  | failed e m => exact .failed rfl rfl
  | unfinished => exact .unfinished

theorem books_enter (x : Eval σ Unit) (target : VarId) (step : AsyncStep) :
    Books x (Booked.act x >>= fun _ => Run.modify (Booked.enter p target step)) := by
  intro m t ht
  have hact := books_act x m t ht
  rw [Run.bind_apply]
  generalize x m = first at hact
  generalize Booked.act x t = second at hact
  cases hact with
  | done hm => exact .done hm
  | failed he hm => exact .failed he hm
  | unfinished => exact .unfinished
  | cut hfalse => exact hfalse.elim

theorem books_inFrame {frame : Frame} {body : Eval σ α} {body' : Booking σ α}
    (h : Books body body') : Books (Eval.inFrame p frame body) (Booked.inFrame p frame body') :=
  Run.Matches.around h (fun _ _ ht => congrArg (Machine.push · frame) ht)
    fun _ _ ht => congrArg (Machine.pop _) ht

theorem books_actions {invoke : Invoke σ}
    {invoke' : FunId -> List Value -> Pos -> Booking σ (Option Value)}
    (h : forall f values pos, Books (invoke f values pos) (invoke' f values pos)) :
    (Actions.plain p invoke).Match (fun _ => True) (fun e e' => e' = e)
      (fun m t => t.machine = m) False (Booked.actions p invoke invoke') where
  raise := fun _ => matches_fail rfl
  reads := fun _ _ => books_act _
  writes := fun _ _ _ _ => books_act _
  calls := fun values pos _ => h _ values pos
  starts := fun _ _ _ => books_enter _ _ _
  awaits := fun _ _ => books_enter _ _ _
  exhausted := fun _ _ _ => .unfinished

theorem books_stmts {invoke : Invoke σ}
    {invoke' : FunId -> List Value -> Pos -> Booking σ (Option Value)}
    (h : forall f values pos, Books (invoke f values pos) (invoke' f values pos)) (fuel : Nat)
    (body : List Stmt) :
    Books (Eval.stmts p fuel invoke body)
      (Walk.stmts (Booked.actions p invoke invoke') p fuel body) := by
  rw [← walk_stmts_plain]
  exact matches_stmts (books_actions h) fuel body fun _ _ => trivial

variable (l : Loaded σ)

theorem books_invoke (fuel : Nat) (f : FunId) (values : List Value) (pos : Pos) :
    Books (l.invoke fuel f values pos) (l.bookedInvoke fuel f values pos) := by
  induction fuel generalizing f values pos with
  | zero => exact fun _ _ _ => .unfinished
  | succ fuel ih =>
      cases hbody : (l.program.function f).body with
      | none =>
          simp only [Loaded.bookedInvoke, hbody]
          exact books_act _
      | some block =>
          simp only [Loaded.bookedInvoke, Loaded.invoke, hbody]
          apply (books_inFrame (books_stmts ih fuel block.body)).bind
          intro flow
          exact books_act _

theorem books_run (fuel : Nat) : Books (l.run fuel) (l.bookedRun fuel) := by
  apply (books_stmts (books_invoke l fuel) fuel l.program.root).bind
  intro flow
  exact (books_act _).bind fun _ => matches_pure _

end Books

/-!
# Reading books
-/

namespace AsyncEvent

variable {e d : AsyncEvent} {later : List AsyncEvent}

@[simp] theorem isAbout_self (e : AsyncEvent) : e.isAbout e.set e.target = true := by
  simp [isAbout]

theorem isAbout_comm : d.isAbout e.set e.target = e.isAbout d.set d.target := by
  simp only [isAbout, Bool.beq_comm]

theorem isAbout_iff {set : Option Nat} {target : VarId} :
    e.isAbout set target = true <-> e.set = set ∧ e.target = target := by
  simp [isAbout]

theorem awaitedIn_start (h : d.step ≠ .awaited) :
    e.awaitedIn (later ++ [d]) = e.awaitedIn later := by
  unfold awaitedIn
  rw [List.find?_append]
  cases later.find? (isAbout e.set e.target) with
  | some _ => rfl
  | none =>
      rw [Option.none_or, List.find?_singleton]
      split
      · simp [h]
      · rfl

theorem awaitedIn_other (h : d.isAbout e.set e.target = false) :
    e.awaitedIn (later ++ [d]) = e.awaitedIn later := by
  unfold awaitedIn
  rw [List.find?_append, List.find?_singleton, h]
  simp

theorem awaitedIn_behind {start : AsyncEvent} {mid : List AsyncEvent}
    (h : start.isAbout e.set e.target = true) :
    e.awaitedIn (later ++ start :: mid ++ [d]) = e.awaitedIn (later ++ start :: mid) := by
  have hfound : (later ++ start :: mid).find? (isAbout e.set e.target) ≠ none := by
    intro hnone
    have hstart := List.find?_eq_none.mp hnone start (by simp)
    exact hstart h
  unfold awaitedIn
  rw [List.find?_append]
  cases hfind : (later ++ start :: mid).find? (isAbout e.set e.target) with
  | some _ => rfl
  | none => exact absurd hfind hfound

end AsyncEvent

section Unawaited

variable {p : Program} {e : AsyncEvent}

theorem unawaited_start (h : e.step ≠ .awaited) (book : List AsyncEvent) :
    unawaited p (book ++ [e]) = unawaited p book ++ (e.call? p).toList := by
  induction book with
  | nil => simp [unawaited, AsyncEvent.awaitedIn]
  | cons d book ih =>
      simp only [List.cons_append, unawaited, AsyncEvent.awaitedIn_start h, ih]
      split
      · rfl
      · rw [List.append_assoc]

variable (h : e.step = .awaited) {mid : List AsyncEvent}
  (hmid : forall d, d ∈ mid -> d.isAbout e.set e.target = false)

include h hmid

theorem unawaited_others : unawaited p (mid ++ [e]) = unawaited p mid := by
  induction mid with
  | nil => simp [unawaited, AsyncEvent.awaitedIn, AsyncEvent.call?, h]
  | cons d mid ih =>
      have hother : e.isAbout d.set d.target = false := by
        rw [AsyncEvent.isAbout_comm]
        exact hmid d List.mem_cons_self
      have hrest := ih fun d' hd' => hmid d' (List.mem_cons_of_mem d hd')
      simp only [List.cons_append, unawaited, AsyncEvent.awaitedIn_other hother, hrest]

theorem unawaited_await {start : AsyncEvent} (hstart : start.isAbout e.set e.target = true)
    (old : List AsyncEvent) :
    (unawaited p (old ++ start :: mid)).Perm
      ((start.call? p).toList ++ unawaited p (old ++ start :: mid ++ [e])) := by
  rcases AsyncEvent.isAbout_iff.mp hstart with ⟨hset, htarget⟩
  induction old with
  | nil =>
      have hopen : start.awaitedIn mid = false := by
        have hnone : mid.find? (AsyncEvent.isAbout e.set e.target) = none := by
          simpa using hmid
        rw [AsyncEvent.awaitedIn, hset, htarget, hnone]
        rfl
      have hclosed : start.awaitedIn (mid ++ [e]) = true := by
        have hnone : mid.find? (AsyncEvent.isAbout e.set e.target) = none := by
          simpa using hmid
        rw [AsyncEvent.awaitedIn, hset, htarget, List.find?_append, hnone]
        simp [h]
      simp [unawaited, hopen, hclosed, unawaited_others h hmid]
  | cons d old ih =>
      have hsame : d.awaitedIn (old ++ start :: mid ++ [e]) = d.awaitedIn (old ++ start :: mid) := by
        cases habout : start.isAbout d.set d.target with
        | true => exact AsyncEvent.awaitedIn_behind habout
        | false =>
            apply AsyncEvent.awaitedIn_other
            rw [AsyncEvent.isAbout, hset, htarget] at habout
            exact habout
      simp only [List.cons_append, unawaited] at ih ⊢
      rw [hsame]
      split
      · exact ih
      · exact (ih.append_left _).trans (List.perm_append_comm_assoc _ _ _)

end Unawaited

/-!
# Pending calls
-/

def pendingCall (p : Program) (set : Nat) (target : VarId) (book : List AsyncEvent) :
    Option LeakedTask :=
  (book.reverse.find? (·.isAbout (some set) target)).bind (·.call? p)

section Pending

variable {p : Program} {set : Nat} {target : VarId} {book : List AsyncEvent}

theorem pendingCall_concat (e : AsyncEvent) :
    pendingCall p set target (book ++ [e]) =
      if e.isAbout (some set) target then e.call? p else pendingCall p set target book := by
  rw [pendingCall, List.reverse_append, List.reverse_singleton, List.singleton_append,
    List.find?_cons]
  cases e.isAbout (some set) target <;> rfl

theorem pendingCall_eq_none (h : forall e, e ∈ book -> e.set ≠ some set) :
    pendingCall p set target book = none := by
  have hnone : book.reverse.find? (·.isAbout (some set) target) = none := by
    rw [List.find?_eq_none]
    intro e he habout
    exact h e (List.mem_reverse.mp he) (AsyncEvent.isAbout_iff.mp habout).1
  rw [pendingCall, hnone]
  rfl

theorem pendingCall_eq_some {call : LeakedTask} (h : pendingCall p set target book = some call) :
    exists old start mid, book = old ++ start :: mid ∧ start.isAbout (some set) target = true ∧
      start.call? p = some call ∧ forall d, d ∈ mid -> d.isAbout (some set) target = false := by
  rcases Option.bind_eq_some_iff.mp h with ⟨start, hfind, hcall⟩
  rcases List.find?_eq_some_iff_append.mp hfind with ⟨habout, later, earlier, hsplit, hlater⟩
  refine ⟨earlier.reverse, start, later.reverse, ?_, habout, hcall, ?_⟩
  · rw [← List.reverse_reverse book, hsplit]
    simp
  · intro d hd
    simpa using hlater d (List.mem_reverse.mp hd)

end Pending
end Scriptlet
