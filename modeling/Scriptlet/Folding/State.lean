import Scriptlet.Folding.CompileTime
import Scriptlet.Folding.Effects
import Scriptlet.Source.Position
import Scriptlet.TypeMismatch

/-!
# The state of the folding pass

The pass walks over a program in the order of execution.  It carries the tables,
which change as bodies are folded, the values that are known at the current
place, and counts of its changes.
-/

namespace Scriptlet

inductive FoldCause where
  | typeMismatch (mismatch : TypeMismatch)
  | invalidOperands (error : OpError)
deriving DecidableEq, Repr

/-- A mistake in the program that shows before it runs. -/
structure FoldError where
  cause : FoldCause
  pos : Pos
deriving DecidableEq, Repr

namespace FoldError

def quoted (word : String) : String :=
  "`" ++ word ++ "`"

def message (e : FoldError) : String :=
  match e.cause with
  | .typeMismatch mismatch => mismatch.message quoted
  | .invalidOperands error => error.message

end FoldError

structure FoldStats where
  foldedExprs : Nat
  elidedCalls : Nat
  removedBlocks : Nat
deriving DecidableEq, Repr

namespace FoldStats

def none : FoldStats :=
  { foldedExprs := 0, elidedCalls := 0, removedBlocks := 0 }

def addFolded (s : FoldStats) : FoldStats :=
  { s with foldedExprs := s.foldedExprs + 1 }

def addElided (s : FoldStats) : FoldStats :=
  { s with elidedCalls := s.elidedCalls + 1 }

def addRemoved (s : FoldStats) : FoldStats :=
  { s with removedBlocks := s.removedBlocks + 1 }

end FoldStats

structure FoldState where
  program : Program
  known : Valuation
  stats : FoldStats

/-- How the pass works at a place. -/
structure FoldMode where
  /-- The budget of each call at compile time. -/
  quota : Nat
  /-- Inside a loop: no variable is known, and what is not known ends the fold of
  the loop. -/
  constantOnly : Bool
  /-- Functions whose bodies are being folded, innermost first. -/
  folding : List FunId

abbrev Fold (α : Type) : Type :=
  StateT FoldState (Except FoldError) α

namespace Fold

def fail {α : Type} (cause : FoldCause) (pos : Pos) : Fold α :=
  throw { cause := cause, pos := pos }

def mismatch {α : Type} (place : TypedPlace) (expected found : ValueType) (pos : Pos) : Fold α :=
  fail (.typeMismatch { place := place, expected := expected, found := found }) pos

def program : Fold Program := do
  return (← get).program

def count (f : FoldStats -> FoldStats) : Fold Unit :=
  modify fun s => { s with stats := f s.stats }

/-!
# Known values
-/

def isGlobal (p : Program) (id : VarId) : Bool :=
  (p.variableAt id).owner.isNone

def forgetGlobalsIn (p : Program) (v : Valuation) : Valuation :=
  v.keep fun id => !isGlobal p id

def learn (id : VarId) (value : Value) : Fold Unit :=
  modify fun s => { s with known := s.known.set id value }

def forget (id : VarId) : Fold Unit :=
  modify fun s => { s with known := s.known.erase id }

def forgetGlobals : Fold Unit :=
  modify fun s => { s with known := forgetGlobalsIn s.program s.known }

def forgetAssigned (a : Assigned) : Fold Unit :=
  modify fun s =>
    let known := if a.globals then forgetGlobalsIn s.program s.known else s.known
    { s with known := known.keep fun id => !a.vars.contains id }

end Fold
end Scriptlet
