import Scriptlet.Diagnostic
import Scriptlet.Evaluation.Session
import Scriptlet.Folding
import Scriptlet.Parser

/-!
# What went wrong, in words

Each error, warning and assertion report as a diagnostic.
-/

namespace Scriptlet

def LexError.diagnostic (e : LexError) : Diagnostic :=
  (Diagnostic.error "L0001" ("unexpected `" ++ e.text ++ "`")).labelAt e.pos "not part of any token"

namespace ParseCause

def codeAndLabel : ParseCause -> String × String
  | unexpectedToken _ _ => ("P0001", "unexpected here")
  | duplicate _ => ("P0002", "redeclared here")
  | undefined _ => ("P0003", "not found in this scope")
  | malformedParameters _ _ => ("P0004", "in this parameter list")
  | invalidConstant _ _ => ("P0005", "not a compile-time value")
  | typeMismatch _ _ _ => ("P0006", "wrong type")
  | invalidLiteral _ => ("P0007", "cannot be represented")
  | notAssignable _ => ("P0008", "cannot assign")
  | notCallable _ => ("P0009", "not a function")
  | arityMismatch _ _ _ => ("P0010", "wrong number of arguments")
  | asyncTargetMismatch _ _ _ _ => ("P0011", "target declared here")
  | chainedComparison => ("P0012", "second comparison")
  | inconsistentFunction _ => ("P0013", "declared here")
  | invalidExternType _ _ => ("P0014", "invalid type")

end ParseCause

def ParseError.diagnostic (e : ParseError) : Diagnostic :=
  let (code, label) := e.cause.codeAndLabel
  let d := Diagnostic.error code e.cause.message
  let placed :=
    match e.pos with
    | some pos => d.labelAt pos label
    | none => d.note "raised while binding the prelude or embedder externs"
  { placed with help := e.cause.hint? }

def ParseWarning.diagnostic (w : ParseWarning) : Diagnostic :=
  (Diagnostic.warning "P0050" ("skipped unexpected `" ++ w.text ++ "`")).labelAt w.pos
    "not a declaration or statement"

def FoldError.diagnostic (e : FoldError) : Diagnostic :=
  let d :=
    match e.cause with
    | .typeMismatch _ => (Diagnostic.error "O0001" "mismatched types").labelAt e.pos e.message
    | .invalidOperands _ =>
        (Diagnostic.error "O0002" e.message).labelAt e.pos "operands known at compile time"
  d.note "found while folding constants, before the program ran"

def RuntimeError.diagnostic (e : RuntimeError) : Diagnostic :=
  match e.cause with
  | .typeMismatch _ => (Diagnostic.error "R0001" "mismatched types").labelAt e.pos e.message
  | .uninitialized name =>
      ((Diagnostic.error "R0002" e.message).labelAt e.pos "no value yet").withHelp
        ("initialize `" ++ name ++ "` where it is declared")
  | .unknownAsyncTarget _ =>
      ((Diagnostic.error "R0003" e.message).labelAt e.pos "awaited here").note
        "each async call can be awaited exactly once"
  | .divisionByZero =>
      ((Diagnostic.error "R0004" "division by zero").labelAt e.pos "divisor is zero").withHelp
        "check the divisor before dividing"
  | .overflow _ =>
      (Diagnostic.error "R0005" e.message).labelAt e.pos "result does not fit in 64 bits"
  | .invalidOperands _ => (Diagnostic.error "R0006" e.message).labelAt e.pos "invalid operands"
  | .native function text =>
      (Diagnostic.error "R0007" ("native function `" ++ function ++ "` failed")).labelAt e.pos text
  | .taskFailed function _ _ =>
      let root := e.rootCause
      ((Diagnostic.error "R0008" ("async call to `" ++ function ++ "` failed")).labelAt e.pos
        "failure surfaced here").label .secondary root.pos root.message
  | .arityMismatch _ _ _ => (Diagnostic.error "R0009" e.message).labelAt e.pos "called here"

def LeakedTask.diagnostic (t : LeakedTask) : Diagnostic :=
  ((Diagnostic.warning "R0011" ("async call to `" ++ t.function ++ "` was never awaited")).labelAt
    t.pos ("result for `" ++ t.target ++ "` is discarded")).withHelp
      ("add `await " ++ t.target ++ "` before the program ends")

def Report.diagnostic (r : Report) : Diagnostic :=
  if r.passed then
    (Diagnostic.plain .note "assertion passed").labelAt r.pos r.message
  else
    (Diagnostic.error "A0001" "assertion failed").labelAt r.pos r.message

end Scriptlet
