import Scriptlet.Evaluation.Session

/-!
# Observed runs

What a run of a whole program shows to the outside: its lines, its assertion
reports and its end.
-/

namespace Scriptlet

structure Observation where
  lines : List String
  reports : List Report
  outcome : Except RuntimeError RunReport

namespace Observation

def ofHost (h : Host) (outcome : Except RuntimeError RunReport) : Observation :=
  { lines := h.lines.toList, reports := h.reports.toList, outcome := outcome }

def failures (o : Observation) : List Report :=
  o.reports.filter (!·.passed)

def passedCount (o : Observation) : Nat :=
  o.reports.countP (·.passed)

end Observation

/-- Runs a program on input lines.  Nothing is observed if the fuel does not
suffice. -/
def Loaded.observe (l : Loaded Host) (fuel : Nat) (input : List String) : Option Observation :=
  match l.run fuel (.initial l.program (.ofInput input)) with
  | .done r m => some (.ofHost m.host (.ok r))
  | .failed e m => some (.ofHost m.host (.error e))
  | .unfinished => none

end Scriptlet
