import Scriptlet.Evaluation.Execute

/-!
# Sessions

A host runs the top level of a program and calls its functions, in any order and
on one machine.
-/

namespace Scriptlet

/-- The end of a run of the top level. -/
structure RunReport where
  /-- The value of a `return` at the top level. -/
  result : Option Value
  leaked : List LeakedTask
deriving DecidableEq

namespace Loaded

variable {σ ρ : Type}

def takeLeaks (p : Program) : EvalOf ρ σ (List LeakedTask) := fun m =>
  .done (m.tasks.leaks (Eval.variableName p)) { m with tasks := .empty }

def run (l : Loaded σ) (fuel : Nat) : Eval σ RunReport := do
  let flow ← Eval.stmts l.program fuel (l.invoke fuel) l.program.root
  let leaked ← takeLeaks l.program
  return { result := flow.value?, leaked := leaked }

def checkArguments (p : Program) (f : FunId) (pos : Pos) :
    List Param -> List Value -> Eval σ Unit
  | param :: params, value :: values => do
      Eval.checkArgument p f param value pos
      checkArguments p f pos params values
  | _, _ => return ()

def callFunction (l : Loaded σ) (fuel : Nat) (f : FunId) (args : List Value) :
    Eval σ (Option Value) := do
  let function := l.program.function f
  let pos := function.entryPos
  if args.length ≠ function.params.length then
    Eval.failAt (.arityMismatch function.name function.params.length args.length) pos
  else
    checkArguments l.program f pos function.params args
    l.invoke fuel f args pos

end Loaded
end Scriptlet
