import Scriptlet.Proofs.Evaluation.Sessions
import Scriptlet.Proofs.Evaluation.Walk

/-!
# Traced runs

An evaluator that keeps a log of its tasks.  Each set of pending tasks has a number, that of
the globals and that of every frame.  The log tells which task was put into which set, and
what an await found there.

Other evaluators run at the same time.  What they do to the host and to the globals, which
all of them share, is given as a sequence of moves, one of them before each step that is
taken here.  So what is true for every sequence is true in whatever order tasks go on and
end.  Where nobody moves, the traced run is the plain one.
-/

namespace Scriptlet

/-- What other evaluators do to the shared state between two steps. -/
structure Move (host : Type) where
  host : host -> host
  /-- Slots of globals with the values that are stored into them. -/
  stores : List (Nat × Value)

namespace Move

variable {σ : Type}

def idle : Move σ :=
  { host := id, stores := [] }

def apply (move : Move σ) (m : Machine σ) : Machine σ :=
  let store (globals : List (Option Value)) (entry : Nat × Value) : List (Option Value) :=
    globals.set entry.1 (some entry.2)
  { m with host := move.host m.host, globals := move.stores.foldl store m.globals }

end Move

/-!
# Logs
-/

/-- A call that is active, with the number of its frame. -/
structure NumberedCall where
  function : FunId
  number : Nat
deriving DecidableEq, Repr

/-- Where an evaluator stands: the number of its set for the globals, and its active calls,
innermost first. -/
structure Scene where
  home : Nat
  stack : List NumberedCall
deriving DecidableEq, Repr

namespace Scene

/-- The set that holds the tasks into a variable: that of the globals, or that of the
innermost frame of the owner. -/
def setFor (p : Program) (scene : Scene) (id : VarId) : Option Nat :=
  match (p.variableAt id).owner with
  | none => some scene.home
  | some owner => (scene.stack.find? (·.function == owner)).map (·.number)

end Scene

/-- A call that was started as a task, the machine on which it began, and how it ended. -/
structure StartedTask (host : Type) where
  function : FunId
  values : List Value
  pos : Pos
  start : Machine host
  result : TaskResult

inductive TaskChange (host : Type) where
  | started (task : StartedTask host)
  /-- The value of the target behind the await, or the error of the await. -/
  | awaited (pos : Pos) (answer : Except RuntimeError (Option Value))

/-- Something that code in a scene did to the tasks into a variable. -/
structure TaskEvent (host : Type) where
  scene : Scene
  target : VarId
  change : TaskChange host

namespace TaskEvent

variable {σ : Type}

def setOf (p : Program) (e : TaskEvent σ) : Option Nat :=
  e.scene.setFor p e.target

def started? (e : TaskEvent σ) : Option (StartedTask σ) :=
  match e.change with
  | .started task => some task
  | .awaited _ _ => none

end TaskEvent

/-- An evaluator with its log, the latest event first. -/
structure Traced (host : Type) where
  machine : Machine host
  scene : Scene
  /-- No set has this number or one above it. -/
  fresh : Nat
  log : List (TaskEvent host)
  clock : Nat

/-- A run of a traced evaluator.  One that lacks fuel fails with no error, for its log to
be kept. -/
abbrev Tracing (host α : Type) : Type :=
  Run (Option RuntimeError) (Traced host) α

/-!
# The traced evaluator
-/

namespace Traced

variable {σ α : Type}

def initial (p : Program) (host : σ) : Traced σ :=
  { machine := .initial p host, scene := { home := 0, stack := [] }, fresh := 1, log := []
    clock := 0 }

def moved (moves : Nat -> Move σ) (t : Traced σ) : Traced σ :=
  { t with machine := (moves t.clock).apply t.machine, clock := t.clock + 1 }

def record (target : VarId) (change : TaskChange σ) (t : Traced σ) : Traced σ :=
  { t with log := { scene := t.scene, target := target, change := change } :: t.log }

def push (frame : Frame) (t : Traced σ) : Traced σ :=
  { t with
    machine := t.machine.push frame
    scene := { t.scene with stack := { function := frame.owner, number := t.fresh } :: t.scene.stack }
    fresh := t.fresh + 1 }

def pop (name : VarId -> String) (t : Traced σ) : Traced σ :=
  { t with
    machine := t.machine.pop name
    scene := { t.scene with stack := t.scene.stack.tail } }

def forTask (t : Traced σ) : Traced σ :=
  { t with
    machine := t.machine.forTask
    scene := { home := t.fresh, stack := [] }
    fresh := t.fresh + 1 }

def afterTask (t task : Traced σ) : Traced σ :=
  { task with machine := t.machine.afterTask task.machine, scene := t.scene }

def renewHome (t : Traced σ) : Traced σ :=
  { t with scene := { t.scene with home := t.fresh }, fresh := t.fresh + 1 }

def exhausted : Tracing σ α :=
  Run.fail none

def act (moves : Nat -> Move σ) (x : Eval σ α) : Tracing σ α := fun t =>
  let t := t.moved moves
  match x t.machine with
  | .done a m => .done a { t with machine := m }
  | .failed e m => .failed (some e) { t with machine := m }
  | .unfinished => .failed none t

def asTask (call : Tracing σ (Option Value)) : Tracing σ TaskResult := fun t =>
  match call t.forTask with
  | .done value task => .done (.ok value) (t.afterTask task)
  | .failed (some e) task => .done (.error e) (t.afterTask task)
  | .failed none task => .failed none (t.afterTask task)
  | .unfinished => .unfinished

variable (moves : Nat -> Move σ) (p : Program)

def startTask (call : Tracing σ (Option Value)) (pos : Pos) (target : VarId) (f : FunId)
    (values : List Value) : Tracing σ Unit := do
  act moves (Eval.checkTarget p target pos)
  let start := (← Run.get).machine.forTask
  let result ← asTask call
  act moves
    (Eval.addTask p
      { target := target, function := (p.function f).name, pos := pos, result := result })
  Run.modify
    (record target
      (.started { function := f, values := values, pos := pos, start := start, result := result }))

def awaitTask (pos : Pos) (target : VarId) : Tracing σ Unit := fun t =>
  match act moves (Eval.awaitTask p pos target) t with
  | .done _ t => .done () (t.record target (.awaited pos (.ok (t.machine.read p target))))
  | .failed (some e) t => .failed (some e) (t.record target (.awaited pos (.error e)))
  | .failed none t => .failed none t
  | .unfinished => .unfinished

def inFrame (frame : Frame) (body : Tracing σ α) : Tracing σ α := fun t =>
  (body (t.push frame)).mapState (pop (Eval.variableName p))

def actions (invoke : FunId -> List Value -> Pos -> Tracing σ (Option Value)) :
    Actions (Run (Option RuntimeError) (Traced σ)) where
  raise := fun e => Run.fail (some e)
  readVar := fun id pos => act moves (Eval.readVar p id pos)
  writeVar := fun id value pos => act moves (Eval.writeVar p id value pos)
  call := invoke
  startTask := fun pos target f values => startTask moves p (invoke f values pos) pos target f values
  awaitTask := awaitTask moves p
  exhausted := exhausted

end Traced

namespace Loaded

variable {σ : Type} (l : Loaded σ) (moves : Nat -> Move σ)

def tracedInvoke : Nat -> FunId -> List Value -> Pos -> Tracing σ (Option Value)
  | 0 => fun _ _ _ => Traced.exhausted
  | fuel + 1 => fun f args pos =>
      match (l.program.function f).body with
      | none => Traced.act moves (l.invoke (fuel + 1) f args pos)
      | some block => do
          let acts := Traced.actions moves l.program (tracedInvoke fuel)
          let flow ← Traced.inFrame l.program (Eval.callFrame l.program f args)
            (Walk.stmts acts l.program fuel block.body)
          Traced.act moves (Eval.checkResult (l.program.function f) pos flow.value?)

def tracedRun (fuel : Nat) : Tracing σ RunReport := do
  let acts := Traced.actions moves l.program (l.tracedInvoke moves fuel)
  let flow ← Walk.stmts acts l.program fuel l.program.root
  let leaked ← Traced.act moves (takeLeaks l.program)
  Run.modify Traced.renewHome
  return { result := flow.value?, leaked := leaked }

def tracedCallFunction (fuel : Nat) (f : FunId) (args : List Value) :
    Tracing σ (Option Value) := do
  let function := l.program.function f
  let pos := function.entryPos
  if args.length ≠ function.params.length then
    Traced.act moves
      (Eval.failAt (.arityMismatch function.name function.params.length args.length) pos)
  else
    Traced.act moves (checkArguments l.program f pos function.params args)
    l.tracedInvoke moves fuel f args pos

/-- The evaluator between the steps of a session.  Fuel may have run out in some of them. -/
inductive TracedBetween (host : σ) : Traced σ -> Prop where
  | start : TracedBetween host (.initial l.program host)
  | run {t t' : Traced σ} (fuel : Nat) :
      TracedBetween host t -> (l.tracedRun moves fuel t).state? = some t' -> TracedBetween host t'
  | call {t t' : Traced σ} (fuel : Nat) {f : FunId} (args : List Value) :
      TracedBetween host t -> .function f ∈ l.program.globals ->
      (l.tracedCallFunction moves fuel f args t).state? = some t' -> TracedBetween host t'

end Loaded

/-!
# Without the log
-/

/-- Where nobody moves, the traced run does to the machine what the plain one does, and
fails with the same error. -/
abbrev Erases {σ α : Type} (x : Eval σ α) (y : Tracing σ α) : Prop :=
  Run.Matches (fun e e' => e' = some e) (fun m t => t.machine = m) True x y

section Erasure

variable {σ α : Type} {p : Program}

abbrev Move.none : Nat -> Move σ :=
  fun _ => .idle

theorem erases_act (x : Eval σ α) : Erases x (Traced.act Move.none x) := by
  intro m t ht
  subst ht
  have hmoved : (t.moved Move.none).machine = t.machine := rfl
  unfold Traced.act
  simp only [hmoved]
  cases x t.machine with
  | done a m => exact .done rfl
  | failed e m => exact .failed rfl rfl
  | unfinished => exact .cut trivial

theorem erases_modify {x : Eval σ Unit} {y : Tracing σ Unit} (h : Erases x y)
    {change : Traced σ -> Traced σ} (hchange : forall t, (change t).machine = t.machine) :
    Erases x (y >>= fun _ => Run.modify change) := by
  intro m t ht
  have hxy := h m t ht
  rw [Run.bind_apply]
  generalize x m = first at hxy
  generalize y t = second at hxy
  cases hxy with
  | done hm => exact .done ((hchange _).trans hm)
  | failed he hm => exact .failed he hm
  | unfinished => exact .unfinished
  | cut => exact .cut trivial

theorem erases_get {x : Eval σ α} {y : Traced σ -> Tracing σ α} (h : forall t, Erases x (y t)) :
    Erases x (Run.get >>= y) :=
  fun m t ht => h t m t ht

theorem erases_inFrame {frame : Frame} {body : Eval σ α} {body' : Tracing σ α}
    (h : Erases body body') :
    Erases (Eval.inFrame p frame body) (Traced.inFrame p frame body') :=
  Run.Matches.around h (fun _ _ ht => congrArg (Machine.push · frame) ht)
    fun _ _ ht => congrArg (Machine.pop _) ht

theorem erases_asTask {call : Eval σ (Option Value)} {call' : Tracing σ (Option Value)}
    (h : Erases call call') : Erases (Eval.asTask call) (Traced.asTask call') := by
  intro m t ht
  subst ht
  have hcall := h t.machine.forTask t.forTask rfl
  unfold Eval.asTask Traced.asTask
  generalize call t.machine.forTask = first at hcall
  generalize call' t.forTask = second at hcall
  cases hcall with
  | done hm => exact .done (congrArg t.machine.afterTask hm)
  | failed he hm =>
      subst he
      exact .done (congrArg t.machine.afterTask hm)
  | unfinished => exact .unfinished
  | cut => exact .cut trivial

theorem erases_startTask {invoke : Invoke σ}
    {invoke' : FunId -> List Value -> Pos -> Tracing σ (Option Value)} {f : FunId}
    {values : List Value} {pos : Pos} (h : Erases (invoke f values pos) (invoke' f values pos))
    (target : VarId) :
    Erases (Eval.startCall p invoke pos target f values)
      (Traced.startTask Move.none p (invoke' f values pos) pos target f values) := by
  apply (erases_act _).bind
  intro _
  apply erases_get
  intro t
  apply (erases_asTask h).bind
  intro result
  exact erases_modify (erases_act _) fun _ => rfl

theorem erases_awaitTask (pos : Pos) (target : VarId) :
    Erases (Eval.awaitTask p pos target : Eval σ Unit) (Traced.awaitTask Move.none p pos target) := by
  intro m t ht
  have hact := erases_act (Eval.awaitTask p pos target) m t ht
  unfold Traced.awaitTask
  generalize Eval.awaitTask p pos target m = first at hact
  generalize Traced.act Move.none (Eval.awaitTask p pos target) t = second at hact
  cases hact with
  | done hm => exact .done hm
  | failed he hm =>
      subst he
      exact .failed rfl hm
  | unfinished => exact .unfinished
  | cut => exact .cut trivial

theorem erases_actions {invoke : Invoke σ}
    {invoke' : FunId -> List Value -> Pos -> Tracing σ (Option Value)}
    (h : forall f values pos, Erases (invoke f values pos) (invoke' f values pos)) :
    (Actions.plain p invoke).Match (fun _ => True) (fun e e' => e' = some e)
      (fun m t => t.machine = m) True (Traced.actions Move.none p invoke') where
  raise := fun _ => matches_fail rfl
  reads := fun _ _ => erases_act _
  writes := fun _ _ _ _ => erases_act _
  calls := fun values pos _ => h _ values pos
  starts := fun {target f _} pos values _ => erases_startTask (h f values pos) target
  awaits := fun pos _ => erases_awaitTask pos _
  exhausted := fun _ _ _ => .cut trivial

theorem erases_stmts {invoke : Invoke σ}
    {invoke' : FunId -> List Value -> Pos -> Tracing σ (Option Value)}
    (h : forall f values pos, Erases (invoke f values pos) (invoke' f values pos)) (fuel : Nat)
    (body : List Stmt) :
    Erases (Eval.stmts p fuel invoke body)
      (Walk.stmts (Traced.actions Move.none p invoke') p fuel body) := by
  rw [← walk_stmts_plain]
  exact matches_stmts (erases_actions h) fuel body fun _ _ => trivial

variable (l : Loaded σ)

theorem erases_invoke (fuel : Nat) (f : FunId) (values : List Value) (pos : Pos) :
    Erases (l.invoke fuel f values pos) (l.tracedInvoke Move.none fuel f values pos) := by
  induction fuel generalizing f values pos with
  | zero => exact fun _ _ _ => .cut trivial
  | succ fuel ih =>
      cases hbody : (l.program.function f).body with
      | none =>
          simp only [Loaded.tracedInvoke, hbody]
          exact erases_act _
      | some block =>
          simp only [Loaded.tracedInvoke, Loaded.invoke, hbody]
          apply (erases_inFrame (erases_stmts ih fuel block.body)).bind
          intro flow
          exact erases_act _

theorem erases_run (fuel : Nat) : Erases (l.run fuel) (l.tracedRun Move.none fuel) := by
  apply (erases_stmts (erases_invoke l fuel) fuel l.program.root).bind
  intro flow
  apply (erases_act _).bind
  intro leaked m t ht
  exact .done ht

theorem erases_callFunction (fuel : Nat) (f : FunId) (args : List Value) :
    Erases (l.callFunction fuel f args) (l.tracedCallFunction Move.none fuel f args) := by
  unfold Loaded.callFunction Loaded.tracedCallFunction
  by_cases harity : args.length ≠ (l.program.function f).params.length
  · simp only [if_pos harity]
    exact erases_act _
  · simp only [if_neg harity]
    exact (erases_act _).bind fun _ => erases_invoke l fuel f args _

theorem tracedBetween_of_between {host : σ} {m : Machine σ} (h : l.Between host m) :
    exists t, l.TracedBetween Move.none host t ∧ t.machine = m := by
  have hend : forall {α : Type} {x : Eval σ α} {y : Tracing σ α} {m m' : Machine σ}
      {t : Traced σ}, Erases x y -> t.machine = m -> (x m).state? = some m' ->
      exists t', (y t).state? = some t' ∧ t'.machine = m' := by
    intro α x y m m' t hxy ht hm'
    have hmatches := hxy m t ht
    generalize x m = first at hmatches hm'
    generalize y t = second at hmatches
    cases hmatches with
    | done hstate =>
        cases hm'
        exact ⟨_, rfl, hstate⟩
    | failed _ hstate =>
        cases hm'
        exact ⟨_, rfl, hstate⟩
    | unfinished => cases hm'
    | cut => cases hm'
  induction h with
  | start => exact ⟨_, .start, rfl⟩
  | run fuel _ hrun ih =>
      rcases ih with ⟨t, hbetween, ht⟩
      rcases hend (erases_run l fuel) ht hrun with ⟨t', ht', hm'⟩
      exact ⟨t', hbetween.run fuel ht', hm'⟩
  | call fuel args _ hglobal hcall ih =>
      rcases ih with ⟨t, hbetween, ht⟩
      rcases hend (erases_callFunction l fuel _ args) ht hcall with ⟨t', ht', hm'⟩
      exact ⟨t', hbetween.call fuel args hglobal ht', hm'⟩

end Erasure
end Scriptlet
