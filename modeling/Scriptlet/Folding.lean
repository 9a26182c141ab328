import Scriptlet.Folding.Statement

/-!
# Folding programs

Constant folding before a run: expressions with a known value become literals,
calls without effects whose value is known are dropped, and so are blocks and
functions that are left with nothing to do.
-/

namespace Scriptlet

structure Optimized where
  program : Program
  stats : FoldStats

namespace Program

/-- The budget of calls and loop rounds that a call at compile time has unless
another one is asked for. -/
def defaultQuota : Nat := 1000

def optimize (p : Program) (quota : Nat) : Except FoldError Optimized :=
  let start : FoldState := { program := p, known := .empty, stats := .none }
  match (Fold.root quota p).run start with
  | .ok (root, s) => .ok { program := { s.program with root := root }, stats := s.stats }
  | .error e => .error e

end Program
end Scriptlet
