import Scriptlet.Diagnostic.Explain
import Scriptlet.Diagnostic.Report
import Scriptlet.Diagnostic.Terminal

/-!
# Findings

The diagnostics of a phase, and the way from a source to a program that ends with
findings when one of its phases fails.
-/

namespace Scriptlet

structure Findings where
  phase : Phase
  diagnostics : List Diagnostic
deriving DecidableEq

namespace Findings

def errorCount (f : Findings) : Nat :=
  f.diagnostics.countP (·.isError)

def after (earlier : List Diagnostic) (f : Findings) : Findings :=
  { f with diagnostics := earlier ++ f.diagnostics }

def texts (color : Bool) (source : String) (file : Option String) (f : Findings) : List String :=
  f.diagnostics.map (Terminal.format color source file)

def unnamedFile : String := "-"

def report (source : String) (file : Option String) (f : Findings) : String :=
  (Diagnostic.report f.diagnostics source (file.getD unnamedFile) f.phase).render

end Findings

/-!
# Phases that may fail
-/

namespace Findings

/-- The tokens of a source.  All lexical errors are found, and no parse follows
them. -/
def tokens (source : String) : Except Findings (List Token) :=
  let lexed := lex source
  if lexed.isOk then
    .ok lexed.tokens
  else
    .error { phase := .lex, diagnostics := lexed.errors.map LexError.diagnostic }

def parsed {body : Type} (externs : List (Extern body)) (source : String) :
    Except Findings Parsed :=
  match tokens source with
  | .error f => .error f
  | .ok tokens =>
      match parse externs tokens with
      | .ok r => .ok r
      | .error e => .error { phase := .parse, diagnostics := [e.diagnostic] }

def optimized (quota : Nat) (p : Program) : Except Findings Optimized :=
  match p.optimize quota with
  | .ok r => .ok r
  | .error e => .error { phase := .optimize, diagnostics := [e.diagnostic] }

end Findings

def Parsed.warningDiagnostics (p : Parsed) : List Diagnostic :=
  p.warnings.map ParseWarning.diagnostic

end Scriptlet
