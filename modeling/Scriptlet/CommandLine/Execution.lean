import Scriptlet.CommandLine.Conclusion
import Scriptlet.Comparison
import Scriptlet.Host.Input
import Scriptlet.Prelude

/-!
# Commands on a source

Each command takes the text of a source to a conclusion.  A run is concluded only
if the fuel suffices for it.
-/

namespace Scriptlet
namespace CommandLine

def preludeExterns : List (Extern (Native Host)) :=
  Prelude.externs

def loaded (p : Program) : Loaded Host :=
  { program := p, natives := Extern.bodies preludeExterns }

def parsed (source : String) : Except Findings Parsed :=
  Findings.parsed preludeExterns source

def optimized (p : Parsed) : Except Findings Optimized :=
  (Findings.optimized Program.defaultQuota p.program).mapError (·.after p.warningDiagnostics)

/-!
# Listings
-/

def inspectTokens (source : String) : Except Findings Conclusion :=
  (Findings.tokens source).map fun tokens =>
    .ofListing (.tokens tokens) { phase := .lex, diagnostics := [] }

def inspectTree (source : String) : Except Findings Conclusion :=
  (parsed source).map fun p =>
    .ofListing (.tree p.program) { phase := .parse, diagnostics := p.warningDiagnostics }

def inspectFolded (source : String) : Except Findings Conclusion := do
  let p ← parsed source
  let r ← optimized p
  return .ofListing (.folded r) { phase := .optimize, diagnostics := p.warningDiagnostics }

def settle : Except Findings Conclusion -> Conclusion
  | .ok c => c
  | .error f => .ofFailure [] f

def inspect (stage : Stage) (source : String) : Conclusion :=
  match stage with
  | .lex => settle (inspectTokens source)
  | .parse => settle (inspectTree source)
  | .optimize => settle (inspectFolded source)

/-!
# Runs
-/

/-- The conclusion of a run: its error, or else its leaks and failed assertions. -/
def concludeRun (warnings : List Diagnostic) (o : Observation) : Conclusion :=
  match o.outcome with
  | .error e => .ofFailure o.lines { phase := .run, diagnostics := warnings ++ [e.diagnostic] }
  | .ok r =>
      let diagnostics :=
        warnings ++ r.leaked.map LeakedTask.diagnostic ++ o.failures.map Report.diagnostic
      { lines := o.lines
        listing := .nothing
        findings := { phase := .run, diagnostics := diagnostics }
        closing := .assertions o.passedCount o.failures.length
        status := if o.failures.isEmpty then .success else .assertionFailed }

def runProgram (fuel : Nat) (warnings : List Diagnostic) (p : Program) (stdin : String) :
    Option Conclusion :=
  ((loaded p).observe fuel (Host.trimmedLines stdin)).map (concludeRun warnings)

/-- The conclusion of two runs; the lines are those of the optimized program. -/
def concludeComparison (warnings : List Diagnostic) (plain optimized : Observation) :
    Conclusion :=
  match plain.divergence? optimized with
  | none => concludeRun warnings optimized
  | some d =>
      { lines := optimized.lines
        listing := .nothing
        findings := { phase := .run, diagnostics := warnings ++ [d.diagnostic] }
        closing := .failed "Compare" 1
        status := .failure }

def comparePrograms (fuel : Nat) (p : Parsed) (stdin : String) : Option Conclusion := do
  let input := Host.plainLines stdin
  let plain ← (loaded p.program).observe fuel input
  match optimized p with
  | .error f => return .ofFailure [] f
  | .ok r =>
      let folded ← (loaded r.program).observe fuel input
      return concludeComparison p.warningDiagnostics plain folded

def runParsed (fuel : Nat) (mode : RunMode) (p : Parsed) (stdin : String) : Option Conclusion :=
  match mode with
  | .compared => comparePrograms fuel p stdin
  | .plain => runProgram fuel p.warningDiagnostics p.program stdin
  | .optimized =>
      match optimized p with
      | .error f => some (.ofFailure [] f)
      | .ok r => runProgram fuel p.warningDiagnostics r.program stdin

def run (fuel : Nat) (mode : RunMode) (source stdin : String) : Option Conclusion :=
  match parsed source with
  | .error f => some (.ofFailure [] f)
  | .ok p => runParsed fuel mode p stdin

end CommandLine
end Scriptlet
