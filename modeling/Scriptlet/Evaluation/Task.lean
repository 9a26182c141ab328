import Scriptlet.Evaluation.Error
import Scriptlet.Program.Tree

/-!
# Tasks

An async statement starts a task whose result is stored by the matching await.
Tasks wait in the order in which they were started; a task that is replaced
before its await, or whose frame is left, is leaked.
-/

namespace Scriptlet

/-- An async call that nobody awaited. -/
structure LeakedTask where
  target : String
  function : String
  pos : Pos
deriving DecidableEq, Repr

/-- How the call of a task ended: with a value, with nothing, or with an error. -/
abbrev TaskResult : Type :=
  Except RuntimeError (Option Value)

/-- A task that waits for its await, with what is known of its result. -/
structure PendingTask (ρ : Type := TaskResult) where
  target : VarId
  function : String
  pos : Pos
  result : ρ

structure TaskList (ρ : Type := TaskResult) where
  pending : List (PendingTask ρ)
  leaked : List LeakedTask

namespace TaskList

variable {ρ : Type}

def empty : TaskList ρ :=
  { pending := [], leaked := [] }

instance : Inhabited (TaskList ρ) :=
  ⟨empty⟩

def find? (tasks : TaskList ρ) (target : VarId) : Option (PendingTask ρ) :=
  tasks.pending.find? (·.target == target)

def leakOf (name : VarId -> String) (task : PendingTask ρ) : LeakedTask :=
  { target := name task.target, function := task.function, pos := task.pos }

def replace (task : PendingTask ρ) : List (PendingTask ρ) -> List (PendingTask ρ)
  | [] => [task]
  | other :: rest =>
      if other.target = task.target then task :: rest else other :: replace task rest

/-- Adds a task.  One that waits on the same target already is leaked. -/
def insert (name : VarId -> String) (tasks : TaskList ρ) (task : PendingTask ρ) : TaskList ρ :=
  { pending := replace task tasks.pending
    leaked := tasks.leaked ++ ((tasks.find? task.target).map (leakOf name)).toList }

def erase (tasks : TaskList ρ) (target : VarId) : TaskList ρ :=
  { tasks with pending := tasks.pending.eraseP (·.target == target) }

def addLeaks (tasks : TaskList ρ) (leaks : List LeakedTask) : TaskList ρ :=
  { tasks with leaked := tasks.leaked ++ leaks }

/-- Everything that was not awaited: the leaks so far, then the pending tasks. -/
def leaks (name : VarId -> String) (tasks : TaskList ρ) : List LeakedTask :=
  tasks.leaked ++ tasks.pending.map (leakOf name)

end TaskList
end Scriptlet
