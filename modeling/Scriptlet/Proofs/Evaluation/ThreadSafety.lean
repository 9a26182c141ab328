import Scriptlet.Proofs.Evaluation.SoundCode
import Scriptlet.Proofs.Evaluation.TaskTypes
import Scriptlet.Proofs.Evaluation.Threads

/-!
# Threads are safe

Whichever threads take their operations, and in whatever order, all of them stay safe: their
machines are typed, their code is sound above the frames that they have, and each task that
waits has a thread of its own, which runs a call of a function with the type of the target.
An operation of one thread changes the globals for all others, but keeps them typed.
-/

namespace Scriptlet

def Outcome.EndsIn {ε σ α : Type} (done : α -> σ -> Prop) (failed : ε -> σ -> Prop) :
    Outcome ε σ α -> Prop
  | .done a s => done a s
  | .failed e s => failed e s
  | .unfinished => True

theorem endsIn_bind {ε σ α β : Type} {done : α -> σ -> Prop} {done' : β -> σ -> Prop}
    {failed : ε -> σ -> Prop} {x : Run ε σ α} {f : α -> Run ε σ β} {s : σ}
    (hx : (x s).EndsIn done failed)
    (hf : forall a s', done a s' -> (f a s').EndsIn done' failed) :
    ((x >>= f) s).EndsIn done' failed := by
  rw [Run.bind_apply]
  cases houtcome : x s with
  | done a s' =>
      rw [houtcome] at hx
      exact hf a s' hx
  | failed e s' =>
      rw [houtcome] at hx
      exact hx
  | unfinished => trivial

theorem Outcome.EndsIn.mono {ε σ α : Type} {done done' : α -> σ -> Prop}
    {failed failed' : ε -> σ -> Prop} {x : Outcome ε σ α} (h : x.EndsIn done failed)
    (hdone : forall a s, done a s -> done' a s) (hfailed : forall e s, failed e s -> failed' e s) :
    x.EndsIn done' failed' := by
  cases x with
  | done a s => exact hdone a s h
  | failed e s => exact hfailed e s h
  | unfinished => trivial

def PendingTask.Promised (p : Program) (callees : List (Option FunId)) (task : PendingTask Nat) :
    Prop :=
  exists f, callees[task.result]? = some (some f) ∧
    (p.function f).result = (p.variableAt task.target).type ∧ (p.function f).result ≠ .none

/-- How the call of the task has ended: with a value for the target, or with an error. -/
def PendingTask.EndsWell (p : Program) (task : PendingTask Nat) :
    Except Signal (Option Value) -> Prop :=
  Returns fun result => exists v, result = some v ∧ v.type = (p.variableAt task.target).type

section Machines

variable {σ : Type} {p : Program} {good : PendingTask Nat -> Prop} {d : Nat}

/-- A machine of a thread with so many frames and such tasks. -/
structure Machine.SafeAt (p : Program) (good : PendingTask Nat -> Prop) (d : Nat)
    (m : Machine σ Nat) : Prop where
  typed : m.Typed p
  depth : m.frames.length = d
  tasks : m.EachTask good

namespace Machine.SafeAt

variable {m m' : Machine σ Nat} (h : m.SafeAt p good d)

include h

theorem mono {good' : PendingTask Nat -> Prop} (himp : forall task, good task -> good' task) :
    m.SafeAt p good' d :=
  ⟨h.typed, h.depth, h.tasks.mono himp⟩

theorem shared {host : σ} {globals : List (Option Value)} (hglobals : SlotsTyped p none globals) :
    Machine.SafeAt p good d { m with host := host, globals := globals } :=
  ⟨⟨hglobals, h.typed.frames, h.typed.tasks⟩, h.depth, h.tasks⟩

theorem store? {id : VarId} {v : Value} (hid : id < p.vars.length)
    (htype : v.type = (p.variableAt id).type) (hstore : m.store? p id v = some m') :
    m'.SafeAt p good d where
  typed := h.typed.store? hid htype hstore
  depth := by
    have howners := congrArg List.length (owners_store? hstore)
    rw [owners, owners, List.length_map, List.length_map] at howners
    exact howners.trans h.depth
  tasks := h.tasks.store? hstore

theorem updateTasks? {id : VarId} {change : TaskList Nat -> TaskList Nat}
    (htargets : forall tasks : TaskList Nat, tasks.Targets p -> (change tasks).Targets p)
    (hupdate : m.updateTasks? p id change = some m') (htasks : m'.EachTask good) :
    m'.SafeAt p good d where
  typed := h.typed.updateTasks? htargets hupdate
  depth := by
    have howners := congrArg List.length (owners_updateTasks? hupdate)
    rw [owners, owners, List.length_map, List.length_map] at howners
    exact howners.trans h.depth
  tasks := htasks

theorem push {f : FunId} {values : List Value} (htables : p.Tables)
    (hfits : (Operation.push f values).Fits p d) :
    (m.push (Eval.callFrame p f values)).SafeAt p good (d + 1) where
  typed := h.typed.push (typed_callFrame htables hfits.1 hfits.2.1 hfits.2.2)
  depth := congrArg (· + 1) h.depth
  tasks := h.tasks.push rfl

theorem pop (name : VarId -> String) : (m.pop name).SafeAt p good (d - 1) where
  typed := h.typed.pop name
  depth := by
    rw [← h.depth, Machine.pop]
    cases hframes : m.frames with
    | nil => exact congrArg List.length hframes
    | cons frame rest => rfl
  tasks := h.tasks.pop name

end Machine.SafeAt

theorem Machine.safeAt_new {host : σ} {globals : List (Option Value)}
    (hglobals : SlotsTyped p none globals) : Machine.SafeAt p good 0
      { host := host, globals := globals, frames := [], tasks := .empty } where
  typed :=
    { globals := hglobals, frames := fun _ hframe => nomatch hframe
      tasks := TaskList.targets_empty p }
  depth := rfl
  tasks := eachTask_empty rfl rfl

/-!
# Operations
-/

theorem endsIn_act {α : Type} {x : EvalOf Nat σ α} {answer : α -> Prop}
    (hx : Keeps (Machine.SafeAt p good d) x answer) {b : Booked σ Nat}
    (hb : b.machine.SafeAt p good d) :
    (Raising.lift (Booked.act x) b).EndsIn
      (fun a b' => answer a ∧ b'.machine.SafeAt p good d)
      (fun s b' => (exists e, s = .error e) ∧ b'.machine.SafeAt p good d) := by
  have hend := hx b.machine hb
  unfold Raising.lift Booked.act
  cases houtcome : x b.machine with
  | done a m =>
      rw [houtcome] at hend
      exact hend
  | failed e m =>
      rw [houtcome] at hend
      exact ⟨⟨e, rfl⟩, hend⟩
  | unfinished => trivial

theorem endsIn_step {α : Type} {x : EvalOf Nat σ α}
    (hx : KeepsAll (Machine.SafeAt p good d) x) {b : Booked σ Nat}
    (hb : b.machine.SafeAt p good d) :
    (Raising.lift (Booked.act x) b).EndsIn
      (fun _ b' => b'.machine.SafeAt p good d)
      (fun s b' => True ∧ (exists e, s = .error e) ∧ b'.machine.SafeAt p good d) :=
  (endsIn_act hx hb).mono (fun _ _ h => h.2) fun _ _ h => ⟨trivial, h⟩

theorem keepsSafe_writeVar {id : VarId} (hid : id < p.vars.length) (value : Value) (pos : Pos) :
    KeepsAll (Machine.SafeAt p good d : Machine σ Nat -> Prop) (Eval.writeVar p id value pos) :=
  keeps_writeVar_of (fun htype hm hstore => hm.store? hid htype hstore) pos

theorem keepsSafe_addTask {task : PendingTask Nat} (htarget : task.target < p.vars.length)
    (htask : good task) :
    KeepsAll (Machine.SafeAt p good d : Machine σ Nat -> Prop) (Eval.addTask p task) := by
  intro m hm
  unfold Eval.addTask
  split
  · rename_i m' hupdate
    refine ⟨trivial, hm.updateTasks? ?_ hupdate (hm.tasks.insert htask hupdate)⟩
    exact fun _ htasks => htasks.insert htarget
  · exact hm

theorem keepsSafe_takeTask (target : VarId) (pos : Pos) :
    Keeps (Machine.SafeAt p good d : Machine σ Nat -> Prop) (Eval.takeTask p target pos)
      fun task => task.target = target ∧ good task := by
  intro m hm
  unfold Eval.takeTask
  split
  · rename_i task m' htask hupdate
    refine ⟨hm.tasks.find? htask, hm.updateTasks? ?_ hupdate (hm.tasks.erase hupdate)⟩
    exact fun _ htasks => htasks.erase target
  · exact hm

theorem keepsSafe_deliver {target : VarId} (hid : target < p.vars.length) (pos : Pos)
    (function : String) (result : TaskResult) :
    KeepsAll (Machine.SafeAt p good d : Machine σ Nat -> Prop)
      (Eval.deliver p pos target function result) := by
  cases result with
  | error e => exact keeps_failAt _ pos
  | ok result =>
      cases result with
      | none => exact keeps_mismatch _ _ _ pos
      | some value => exact keepsSafe_writeVar hid value pos

end Machines

section Operations

variable {σ : Type} {l : Loaded σ} {good : PendingTask Nat -> Prop} {d number : Nat}
  {ended : Nat -> Option (Except Signal (Option Value))} {b : Booked σ Nat}

theorem Operation.settle_safe {p : Program} {target : VarId} (hid : target < p.vars.length)
    (pos : Pos) {task : PendingTask Nat} {result : Except Signal (Option Value)}
    (hresult : task.EndsWell p result) (hb : b.machine.SafeAt p good d) :
    (settle p pos target task result b).EndsIn
      (fun _ b' => b'.machine.SafeAt p good d)
      (fun s b' => True ∧ (exists e, s = .error e) ∧ b'.machine.SafeAt p good d) := by
  cases result with
  | ok r => exact endsIn_step (keepsSafe_deliver hid pos task.function (.ok r)) hb
  | error s =>
      rcases hresult with ⟨e, rfl⟩
      exact endsIn_step (keepsSafe_deliver hid pos task.function (.error e)) hb

/-- One lemma for all operations: whatever fits keeps the machine safe, and fails with errors. -/
theorem Operation.perform_safe (htables : l.program.Tables) {op : Operation}
    (hop : op.Fits l.program d) (hb : b.machine.SafeAt l.program good d)
    (hstart : forall fuel pos target f values, op = .start fuel pos target f values -> good
      { target := target, function := (l.program.function f).name, pos := pos, result := number })
    (hended : forall task result, good task -> ended task.result = some result ->
      task.EndsWell l.program result) :
    (op.perform l ended number b).EndsIn
      (fun _ b' => b'.machine.SafeAt l.program good (op.depth d))
      (fun s b' => op.MayFail ∧ (exists e, s = .error e) ∧ b'.machine.SafeAt l.program good d) := by
  cases op with
  | read id pos => exact endsIn_step (keeps_readVar id pos) hb
  | write id value pos =>
      rcases hop with ⟨mention, hfits, hstored⟩
      exact endsIn_step (keepsSafe_writeVar (Program.lt_of_stored hfits hstored) value pos) hb
  | native f values pos =>
      refine endsIn_step (keeps_native ?_ _ _ values pos) hb
      exact fun _ _ hm => hm.shared hm.typed.globals
  | push f values => exact hb.push htables hop
  | pop => exact hb.pop _
  | start fuel pos target f values =>
      rcases hop with ⟨⟨arity, owners, hfits⟩, -⟩
      have htask := hstart fuel pos target f values rfl
      apply endsIn_bind (endsIn_step (keepsSafe_addTask hfits.1.1 htask) hb)
      exact fun _ _ hb' => hb'
  | await pos target =>
      have hid : target < l.program.vars.length := Program.lt_of_stored hop rfl
      apply endsIn_bind ((endsIn_act (keepsSafe_takeTask target pos) hb).mono (fun _ _ h => h)
        fun _ _ h => ⟨trivial, h⟩)
      rintro task b' ⟨⟨htarget, htask⟩, hb'⟩
      cases hresult : ended task.result with
      | none => trivial
      | some result =>
          apply endsIn_bind (settle_safe hid pos (hended task result htask hresult) hb')
          exact fun _ _ hb'' => hb''
  | takeLeaks =>
      exact
        { typed := ⟨hb.typed.globals, hb.typed.frames, TaskList.targets_empty _⟩
          depth := hb.depth
          tasks := hb.tasks.drained }

end Operations
end Scriptlet
