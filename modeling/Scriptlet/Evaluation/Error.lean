import Scriptlet.Operator
import Scriptlet.Source.Position
import Scriptlet.TypeMismatch

/-!
# Errors of a run

The causes for which a run fails.  A failed task keeps the error of its call.
-/

namespace Scriptlet

inductive RuntimeCause where
  | typeMismatch (mismatch : TypeMismatch)
  | uninitialized (name : String)
  | unknownAsyncTarget (name : String)
  | divisionByZero
  | overflow (symbol : String)
  | invalidOperands (error : OpError)
  | native (function message : String)
  | taskFailed (function : String) (cause : RuntimeCause) (causePos : Pos)
  | arityMismatch (function : String) (expected found : Nat)
deriving DecidableEq, Repr

namespace RuntimeCause

def message : RuntimeCause -> String
  | typeMismatch mismatch => mismatch.message id
  | uninitialized name => "variable `" ++ name ++ "` is read before it is assigned"
  | unknownAsyncTarget name => "no pending async call stores into `" ++ name ++ "`"
  | divisionByZero => "division by zero; check divisor before dividing"
  | overflow symbol => "integer overflow in `" ++ symbol ++ "`"
  | invalidOperands error => error.message
  | native function message => "native function `" ++ function ++ "` failed: " ++ message
  | taskFailed function cause _ =>
      "async call to `" ++ function ++ "` failed: " ++ cause.message
  | arityMismatch function expected found =>
      "`" ++ function ++ "` takes " ++ toString expected ++ " argument" ++
        (if expected = 1 then "" else "s") ++ ", got " ++ toString found

def ofOpError : OpError -> RuntimeCause
  | .divisionByZero => divisionByZero
  | .overflow symbol => overflow symbol
  | error => invalidOperands error

end RuntimeCause

structure RuntimeError where
  cause : RuntimeCause
  pos : Pos
deriving DecidableEq, Repr

namespace RuntimeError

def message (e : RuntimeError) : String :=
  e.cause.message

def root (pos : Pos) : RuntimeCause -> RuntimeError
  | .taskFailed _ cause causePos => root causePos cause
  | cause => { cause := cause, pos := pos }

def rootCause (e : RuntimeError) : RuntimeError :=
  root e.pos e.cause

end RuntimeError
end Scriptlet
