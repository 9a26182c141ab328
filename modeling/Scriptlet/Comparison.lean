import Scriptlet.Diagnostic
import Scriptlet.Evaluation.Observation

/-!
# Comparing two runs

A program and its optimized form run on the same input.  A divergence is the
first difference between the two: in the lines, then in the end, then in the
assertions that failed.
-/

namespace Scriptlet

/-- How a run ended, as far as runs are compared. -/
inductive Ending where
  | completed (leaked : Nat)
  | failed (message : String)
deriving DecidableEq, Repr

namespace Ending

def text : Ending -> String
  | completed leaked => "completed with " ++ toString leaked ++ " unawaited async calls"
  | failed message => message

end Ending

inductive Divergence where
  /-- Lines are counted from zero. -/
  | line (index : Nat) (plain optimized : Option String)
  | ending (plain optimized : Ending)
  | assertions (plain optimized : Nat)
deriving DecidableEq, Repr

namespace Observation

def ending (o : Observation) : Ending :=
  match o.outcome with
  | .ok r => .completed r.leaked.length
  | .error e => .failed e.message

def failedAt (o : Observation) : List Pos :=
  o.failures.map (·.pos)

def firstDifference (index : Nat) : List String -> List String -> Option Divergence
  | [], [] => none
  | x :: _, [] => some (.line index (some x) none)
  | [], y :: _ => some (.line index none (some y))
  | x :: xs, y :: ys =>
      if x = y then firstDifference (index + 1) xs ys
      else some (.line index (some x) (some y))

def divergence? (plain optimized : Observation) : Option Divergence :=
  match firstDifference 0 plain.lines optimized.lines with
  | some d => some d
  | none =>
      if plain.ending ≠ optimized.ending then
        some (.ending plain.ending optimized.ending)
      else if plain.failedAt ≠ optimized.failedAt then
        some (.assertions plain.failedAt.length optimized.failedAt.length)
      else
        none

end Observation

namespace Divergence

def lineText : Option String -> String
  | none => "<no line>"
  | some text => "`" ++ text ++ "`"

def notes : Divergence -> List String
  | line index plain optimized =>
      ["output line " ++ toString (index + 1) ++ " is " ++ lineText plain ++ " unoptimized, " ++
        lineText optimized ++ " optimized"]
  | ending plain optimized =>
      ["unoptimized: " ++ plain.text, "optimized: " ++ optimized.text]
  | assertions plain optimized =>
      [toString plain ++ " assertions failed unoptimized, " ++ toString optimized ++ " optimized"]

def diagnostic (d : Divergence) : Diagnostic :=
  { Diagnostic.error "O0003" "optimized program behaves differently" with notes := d.notes }

end Divergence
end Scriptlet
