import Scriptlet.Diagnostic.Findings

/-!
# Surveys

A survey takes a source as far as it goes, from its text to a run and to calls
after the run, and collects everything that there is to say about it.
-/

namespace Scriptlet

/-- A call of a function of the outermost scope by its name. -/
structure HostCall where
  function : String
  args : List Value

/-- What a source is surveyed with. -/
structure SurveyPlan where
  externs : List (Extern (Native Host))
  /-- The quota of the optimizer, if it is asked for. -/
  quota : Option Nat
  host : Host
  calls : List HostCall

structure Survey where
  findings : Findings
  /-- The lines that the program wrote, if it was run. -/
  lines : Option (List String)

namespace Survey

/-- Calls functions one after the other on one machine and collects the errors.
Names of no function are passed over. -/
def callAll (l : Loaded Host) (fuel : Nat) :
    List HostCall -> Machine Host -> Outcome RuntimeError (Machine Host) (List RuntimeError)
  | [], m => .done [] m
  | call :: rest, m =>
      match l.program.globalFunction? call.function with
      | none => callAll l fuel rest m
      | some f =>
          match l.callFunction fuel f call.args m with
          | .done _ m => callAll l fuel rest m
          | .failed e m =>
              match callAll l fuel rest m with
              | .done errors m => .done (e :: errors) m
              | .failed e m => .failed e m
              | .unfinished => .unfinished
          | .unfinished => .unfinished

/-- The end of a run: its error or its leaks, the failures of the calls after it,
and every assertion. -/
def conclude (l : Loaded Host) (fuel : Nat) (calls : List HostCall) (earlier : List Diagnostic)
    (m : Machine Host) : Option Survey :=
  match callAll l fuel calls m with
  | .done errors m =>
      let diagnostics :=
        earlier ++ errors.map RuntimeError.diagnostic ++
          m.host.reports.toList.map Report.diagnostic
      some
        { findings := { phase := .run, diagnostics := diagnostics }
          lines := some m.host.lines.toList }
  | _ => none

/-- Runs a program.  There is no survey of a run that the fuel does not suffice
for. -/
def ofRun (fuel : Nat) (plan : SurveyPlan) (p : Program) (warnings : List Diagnostic) :
    Option Survey :=
  let l : Loaded Host := { program := p, natives := Extern.bodies plan.externs }
  match l.run fuel (.initial p plan.host) with
  | .done r m =>
      conclude l fuel plan.calls (warnings ++ r.leaked.map LeakedTask.diagnostic) m
  | .failed e m => conclude l fuel plan.calls (warnings ++ [e.diagnostic]) m
  | .unfinished => none

def ended (findings : Findings) : Survey :=
  { findings := findings, lines := none }

def ofSource (fuel : Nat) (plan : SurveyPlan) (source : String) : Option Survey :=
  match Findings.parsed plan.externs source with
  | .error f => some (ended f)
  | .ok parsed =>
      let warnings := parsed.warningDiagnostics
      match plan.quota with
      | none => ofRun fuel plan parsed.program warnings
      | some quota =>
          match Findings.optimized quota parsed.program with
          | .error f => some (ended (f.after warnings))
          | .ok r => ofRun fuel plan r.program warnings

end Survey
end Scriptlet
