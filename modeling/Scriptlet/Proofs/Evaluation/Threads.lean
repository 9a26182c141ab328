import Mathlib.Logic.Relation
import Scriptlet.Proofs.Evaluation.Coroutines

/-!
# Threads

The evaluator of a session and the evaluators of its tasks, side by side.  They share the host
and the globals, and each has its own frames and tasks.  In every step some thread takes its
next operation, whichever it is: a thread may go on while others wait, and the session may go
on while tasks still run.  Only an await has to wait, for the thread of its task to end.

A task is known by the number of its thread.  Each thread keeps a book of its async calls.
-/

namespace Scriptlet

/-- What the code of a thread has led to. -/
inductive ThreadEnd where
  | idle
  | ran (report : RunReport)
  | called (f : FunId) (result : Option Value)

structure Thread where
  /-- The function whose call the thread was started for; the evaluator of the session was
  started for none. -/
  callee : Option FunId
  frames : List (Frame Nat)
  tasks : TaskList Nat
  scene : Scene
  /-- No set of this thread has this number or one above it. -/
  fresh : Nat
  book : List AsyncEvent
  code : Coroutine ThreadEnd

structure System (host : Type) where
  host : host
  globals : List (Option Value)
  threads : List Thread

/-!
# One thread
-/

namespace Thread

def new (callee : Option FunId) (code : Coroutine ThreadEnd) : Thread where
  callee := callee
  frames := []
  tasks := .empty
  scene := { home := 0, stack := [] }
  fresh := 1
  book := []
  code := code

def ended? (t : Thread) : Option (Except Signal (Option Value)) :=
  match t.code with
  | .done (.called _ result) => some (.ok result)
  | .raised s => some (.error s)
  | _ => none

def Idle (t : Thread) : Prop :=
  (exists ending, t.code = .done ending) ∨ exists s, t.code = .raised s

variable {σ : Type}

def resume (t : Thread) (b : Booked σ Nat) (code : Coroutine ThreadEnd) : Thread :=
  { t with
    frames := b.machine.frames
    tasks := b.machine.tasks
    scene := b.scene
    fresh := b.fresh
    book := b.book
    code := code }

end Thread

/-!
# Operations
-/

namespace Operation

variable {σ : Type} (l : Loaded σ)

/-- What the await of a task does with the end of its thread.  A return that got out of the
call of the task is raised as such. -/
def settle (p : Program) (pos : Pos) (target : VarId) (task : PendingTask Nat) :
    Except Signal (Option Value) -> Run Signal (Booked σ Nat) Unit
  | .ok result => Raising.lift (Booked.act (Eval.deliver p pos target task.function (.ok result)))
  | .error (.error e) =>
      Raising.lift (Booked.act (Eval.deliver p pos target task.function (.error e)))
  | .error (.returned value) => Run.fail (.strayed value)
  | .error (.strayed value) => Run.fail (.strayed value)

/-- What the operation does to an evaluator.  The number is that of the thread which is started
next.  An await whose thread has not ended cannot go on yet. -/
def perform (ended : Nat -> Option (Except Signal (Option Value))) (number : Nat) :
    (op : Operation) -> Run Signal (Booked σ Nat) op.Answer
  | .read id pos => Raising.lift (Booked.act (Eval.readVar l.program id pos))
  | .write id value pos => Raising.lift (Booked.act (Eval.writeVar l.program id value pos))
  | .native f values pos =>
      Raising.lift
        (Booked.act (Eval.native (l.program.function f) (l.nativeBody f) values pos))
  | .push f values => Run.modify (Booked.push (Eval.callFrame l.program f values))
  | .pop => Run.modify (Booked.pop (Eval.variableName l.program))
  | .start _ pos target f _ => do
      let name := (l.program.function f).name
      Raising.lift
        (Booked.act
          (Eval.addTask l.program { target := target, function := name, pos := pos, result := number }))
      Run.modify (Booked.enter l.program target (.started f pos))
  | .await pos target => do
      let task ← Raising.lift (Booked.act (Eval.takeTask l.program target pos))
      match ended task.result with
      | some result => settle l.program pos target task result
      | none => Run.exhausted
      Run.modify (Booked.enter l.program target .awaited)
  | .takeLeaks => Raising.lift (Booked.act (Loaded.takeLeaks l.program))

/-- The call of a task begins, also where its target turns out to have no set. -/
def started (p : Program) : Operation -> List Thread
  | .start fuel pos _ f values =>
      [.new (some f) (ThreadEnd.called f <$> p.callCode fuel f values pos)]
  | _ => []

end Operation

/-!
# Steps
-/

namespace System

variable {σ : Type}

def initial (p : Program) (host : σ) : System σ where
  host := host
  globals := Machine.initialGlobals p
  threads := [.new none (.done .idle)]

def view (s : System σ) (t : Thread) : Booked σ Nat where
  machine := { host := s.host, globals := s.globals, frames := t.frames, tasks := t.tasks }
  scene := t.scene
  fresh := t.fresh
  book := t.book

def ended (s : System σ) (number : Nat) : Option (Except Signal (Option Value)) :=
  s.threads[number]?.bind (·.ended?)

def resume (s : System σ) (number : Nat) (t : Thread) (b : Booked σ Nat) (code : Coroutine ThreadEnd)
    (started : List Thread) : System σ where
  host := b.machine.host
  globals := b.machine.globals
  threads := s.threads.set number (t.resume b code) ++ started

def step? (l : Loaded σ) (number : Nat) (s : System σ) : Option (System σ) :=
  match s.threads[number]? with
  | none => none
  | some t =>
      match t.code with
      | .ask op next =>
          let started := op.started l.program
          match op.perform l s.ended s.threads.length (s.view t) with
          | .done answer b => some (s.resume number t b (next (.ok answer)) started)
          | .failed signal b => some (s.resume number t b (next (.error signal)) started)
          | .unfinished => none
      | _ => none

/-- All that a step can be: some operation has ended, well or not. -/
theorem step_cases {l : Loaded σ} {number : Nat} {s s' : System σ}
    (h : s.step? l number = some s') :
    exists t op next, s.threads[number]? = some t ∧ t.code = .ask op next ∧
      ((exists answer b, op.perform l s.ended s.threads.length (s.view t) = .done answer b ∧
          s' = s.resume number t b (next (.ok answer)) (op.started l.program)) ∨
        exists signal b, op.perform l s.ended s.threads.length (s.view t) = .failed signal b ∧
          s' = s.resume number t b (next (.error signal)) (op.started l.program)) := by
  unfold step? at h
  split at h
  · cases h
  · rename_i t ht
    split at h
    · rename_i op next hask
      refine ⟨t, op, next, ht, hask, ?_⟩
      dsimp only at h
      split at h
      · rename_i answer b hdone
        exact .inl ⟨answer, b, hdone, (Option.some.inj h).symm⟩
      · rename_i signal b hfailed
        exact .inr ⟨signal, b, hfailed, (Option.some.inj h).symm⟩
      · cases h
    · cases h

theorem getElem?_resume_self {s : System σ} {number : Nat} {t : Thread}
    (ht : s.threads[number]? = some t) (b : Booked σ Nat) (code : Coroutine ThreadEnd)
    (started : List Thread) :
    (s.resume number t b code started).threads[number]? = some (t.resume b code) := by
  have hlt := (List.getElem?_eq_some_iff.mp ht).1
  rw [resume, List.getElem?_append_left (by rwa [List.length_set]), List.getElem?_set_self hlt]

theorem getElem?_resume_other {s : System σ} {number other : Nat} {t u : Thread}
    (hu : s.threads[other]? = some u) (hne : number ≠ other) (b : Booked σ Nat)
    (code : Coroutine ThreadEnd) (started : List Thread) :
    (s.resume number t b code started).threads[other]? = some u := by
  have hlt := (List.getElem?_eq_some_iff.mp hu).1
  rw [resume, List.getElem?_append_left (by rwa [List.length_set]), List.getElem?_set_ne hne, hu]

def launch (s : System σ) (main : Thread) (code : Coroutine ThreadEnd) : System σ :=
  { s with threads := s.threads.set 0 { main with code := code } }

def running (p : Program) (host : σ) (fuel : Nat) : System σ :=
  (initial p host).launch (.new none (.done .idle)) (ThreadEnd.ran <$> p.runCode fuel)

def Step (l : Loaded σ) (s s' : System σ) : Prop :=
  exists number, s.step? l number = some s'

/-- The states of a session.  The host runs the top level and calls functions on one evaluator,
in any order and also after failures, while tasks go on at any pace. -/
inductive Reachable (l : Loaded σ) (host : σ) : System σ -> Prop where
  | initial : Reachable l host (initial l.program host)
  | step {s s' : System σ} : Reachable l host s -> s.Step l s' -> Reachable l host s'
  | run {s : System σ} {main : Thread} (fuel : Nat) :
      Reachable l host s -> s.threads[0]? = some main -> main.Idle ->
      Reachable l host (s.launch main (ThreadEnd.ran <$> l.program.runCode fuel))
  | call {s : System σ} {main : Thread} (fuel : Nat) {f : FunId} (args : List Value) :
      Reachable l host s -> s.threads[0]? = some main -> main.Idle ->
      .function f ∈ l.program.globals ->
      Reachable l host (s.launch main (ThreadEnd.called f <$> l.program.callFunctionCode fuel f args))

def schedule (l : Loaded σ) : List Nat -> System σ -> Option (System σ)
  | [], s => some s
  | number :: rest, s => (s.step? l number).bind (schedule l rest)

theorem reachable_running (l : Loaded σ) (host : σ) (fuel : Nat) :
    Reachable l host (running l.program host fuel) :=
  .run fuel .initial rfl (.inl ⟨.idle, rfl⟩)

theorem steps_of_schedule {l : Loaded σ} {numbers : List Nat} {s s' : System σ}
    (h : s.schedule l numbers = some s') : Relation.ReflTransGen (Step l) s s' := by
  induction numbers generalizing s with
  | nil =>
      cases h
      exact .refl
  | cons number rest ih =>
      rcases Option.bind_eq_some_iff.mp h with ⟨next, hstep, hrest⟩
      exact (ih hrest).head ⟨number, hstep⟩

theorem Reachable.steps {l : Loaded σ} {host : σ} {s s' : System σ} (h : Reachable l host s)
    (hsteps : Relation.ReflTransGen (Step l) s s') : Reachable l host s' := by
  induction hsteps with
  | refl => exact h
  | tail _ hstep ih => exact ih.step hstep

end System
end Scriptlet
