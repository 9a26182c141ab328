import Scriptlet.Evaluation.Task
import Scriptlet.Host
import Scriptlet.Program.Tables

/-!
# Machines

The state of a program that runs: the host, the slots of the globals, and the
frames of the calls that are active.  A variable of a function lives in the
innermost frame of its owner.
-/

namespace Scriptlet

structure Frame (ρ : Type := TaskResult) where
  owner : FunId
  slots : List (Option Value)
  /-- Tasks into the variables of this frame. -/
  tasks : TaskList ρ

namespace Frame

variable {ρ : Type}

def slot (f : Frame ρ) (index : Nat) : Option Value :=
  f.slots.getD index none

def setSlot (f : Frame ρ) (index : Nat) (value : Value) : Frame ρ :=
  { f with slots := f.slots.set index (some value) }

def mapTasks (g : TaskList ρ -> TaskList ρ) (f : Frame ρ) : Frame ρ :=
  { f with tasks := g f.tasks }

end Frame

structure Machine (host : Type) (ρ : Type := TaskResult) where
  host : host
  globals : List (Option Value)
  /-- Active calls, innermost first. -/
  frames : List (Frame ρ)
  /-- Tasks into globals, and every leak recorded so far. -/
  tasks : TaskList ρ

namespace Machine

variable {σ τ ρ : Type}

def withHost (m : Machine σ ρ) (host : τ) : Machine τ ρ :=
  { host := host, globals := m.globals, frames := m.frames, tasks := m.tasks }

/-- The slots of the globals before a run: those of extern variables are filled. -/
def initialGlobals (p : Program) : List (Option Value) :=
  let slots := List.replicate p.globalCount none
  p.vars.foldl
    (fun slots v => if v.owner.isNone then slots.set v.slot v.default else slots) slots

def initial (p : Program) (host : σ) : Machine σ ρ :=
  { host := host, globals := initialGlobals p, frames := [], tasks := .empty }

def global (m : Machine σ ρ) (slot : Nat) : Option Value :=
  m.globals.getD slot none

/-!
# Frames
-/

def frameOf (m : Machine σ ρ) (owner : FunId) : Option (Frame ρ) :=
  m.frames.find? (·.owner == owner)

def updateFrame (owner : FunId) (f : Frame ρ -> Frame ρ) :
    List (Frame ρ) -> Option (List (Frame ρ))
  | [] => none
  | frame :: rest =>
      if frame.owner = owner then some (f frame :: rest)
      else (updateFrame owner f rest).map (frame :: ·)

def push (m : Machine σ ρ) (frame : Frame ρ) : Machine σ ρ :=
  { m with frames := frame :: m.frames }

def pop (name : VarId -> String) (m : Machine σ ρ) : Machine σ ρ :=
  match m.frames with
  | [] => m
  | frame :: rest =>
      { m with frames := rest, tasks := m.tasks.addLeaks (frame.tasks.leaks name) }

/-!
# Variables
-/

def read (p : Program) (m : Machine σ ρ) (id : VarId) : Option Value :=
  let v := p.variableAt id
  match v.owner with
  | none => m.global v.slot
  | some owner => (m.frameOf owner).bind (·.slot v.slot)

def store? (p : Program) (m : Machine σ ρ) (id : VarId) (value : Value) : Option (Machine σ ρ) :=
  let v := p.variableAt id
  match v.owner with
  | none => some { m with globals := m.globals.set v.slot (some value) }
  | some owner =>
      (updateFrame owner (·.setSlot v.slot value) m.frames).map fun frames =>
        { m with frames := frames }

def tasksFor (p : Program) (m : Machine σ ρ) (id : VarId) : Option (TaskList ρ) :=
  match (p.variableAt id).owner with
  | none => some m.tasks
  | some owner => (m.frameOf owner).map (·.tasks)

def updateTasks? (p : Program) (m : Machine σ ρ) (id : VarId) (f : TaskList ρ -> TaskList ρ) :
    Option (Machine σ ρ) :=
  match (p.variableAt id).owner with
  | none => some { m with tasks := f m.tasks }
  | some owner =>
      (updateFrame owner (·.mapTasks f) m.frames).map fun frames => { m with frames := frames }

/-- A machine for a task: it shares host and globals and has no calls of its own. -/
def forTask (m : Machine σ ρ) : Machine σ ρ :=
  { m with frames := [], tasks := .empty }

def afterTask (m task : Machine σ ρ) : Machine σ ρ :=
  { m with host := task.host, globals := task.globals }

def globalValue (p : Program) (m : Machine σ ρ) (id : VarId) : Option Value :=
  let v := p.variableAt id
  match v.owner with
  | none => m.global v.slot
  | some _ => none

end Machine
end Scriptlet
