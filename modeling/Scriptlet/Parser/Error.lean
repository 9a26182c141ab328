import Scriptlet.Token
import Scriptlet.Value

/-!
# Parse errors

The causes for which a token list is no program, the message of each, and the
advice that goes with some of them.
-/

namespace Scriptlet

/-- What the parser was looking for. -/
inductive Expectation where
  | token (kind : TokenKind)
  | type
  | statement
  | expression
deriving DecidableEq, Repr

namespace Expectation

def description : Expectation -> String
  | token kind => kind.description
  | type => "a type"
  | statement => "a statement"
  | expression => "an expression"

end Expectation

inductive ParseCause where
  | unexpectedToken (expected : Expectation) (found : TokenKind)
  | duplicate (name : String)
  | undefined (name : String)
  | malformedParameters (expected : Expectation) (found : TokenKind)
  | invalidConstant (name : String) (type : ValueType)
  | typeMismatch (name : String) (expected found : ValueType)
  | invalidLiteral (text : String)
  | notAssignable (name : String)
  | notCallable (name : String)
  | arityMismatch (name : String) (expected found : Nat)
  | asyncTargetMismatch (target : String) (targetType : ValueType) (callee : String)
      (result : ValueType)
  | chainedComparison
  | inconsistentFunction (name : String)
  | invalidExternType (name : String) (type : ValueType)
deriving DecidableEq, Repr

namespace ParseCause

def expectedMessage (expected : Expectation) (found : TokenKind) : String :=
  "expected " ++ expected.description ++ ", found " ++ found.description

def message : ParseCause -> String
  | unexpectedToken expected found => expectedMessage expected found
  | duplicate name => "`" ++ name ++ "` is already declared in this scope"
  | undefined name => "cannot find `" ++ name ++ "` in any visible scope"
  | malformedParameters expected found =>
      "malformed parameter list: " ++ expectedMessage expected found
  | invalidConstant name type =>
      "constant `" ++ name ++
        "` must be initialized with a literal or another constant of type `" ++ type.text ++ "`"
  | typeMismatch name expected found =>
      "`" ++ name ++ "` is declared as `" ++ expected.text ++ "` but initialized with `" ++
        found.text ++ "`"
  | invalidLiteral text => "invalid literal `" ++ text ++ "`"
  | notAssignable name => "cannot assign to `" ++ name ++ "`: it is not a variable"
  | notCallable name => "`" ++ name ++ "` is not a function"
  | arityMismatch name expected found =>
      "`" ++ name ++ "` takes " ++ toString expected ++ " argument(s) but " ++ toString found ++
        " were supplied"
  | asyncTargetMismatch target targetType callee result =>
      "async target `" ++ target ++ "` has type `" ++ targetType.text ++ "` but `" ++ callee ++
        "` returns `" ++ result.text ++ "`"
  | chainedComparison => "comparison operators cannot be chained"
  | inconsistentFunction name =>
      "function table disagrees with identifier `" ++ name ++ "` on its return type"
  | invalidExternType name type =>
      "extern `" ++ name ++ "` cannot have type `" ++ type.text ++ "`"

/-!
# Advice
-/

def tokenHint? (expected : Expectation) (found : TokenKind) : Option String :=
  match expected, found with
  | .token .assign, .equal => some "assignment uses ':='; '=' compares"
  | .token .colon, _ => some "syntax: name: type"
  | .type, _ => some "types are 'int', 'float' or 'bool'"
  | .token .openBrace, _ => some "blocks start with '\x7b'"
  | .token .closeBrace, .endOfInput => some "every '\x7b' needs a matching '\x7d'"
  | .token .closeParen, .endOfInput => some "add ')' to close the parenthesis"
  | .token .openParen, _ => some "function calls need parentheses"
  | .expression, _ => some "try a value, variable, or function call"
  | .token .name, .intLit => some "names can't start with a number"
  | .token .name, .floatLit => some "names can't start with a number"
  | .token .name, _ => some "names start with a letter or '_'"
  | .statement, _ =>
      some "statements start with a name, '\x7b', 'if', 'while', 'return', 'async' or 'await'"
  | _, _ => none

def hint? : ParseCause -> Option String
  | unexpectedToken expected found => tokenHint? expected found
  | duplicate _ => some "declare it in a nested block to shadow it instead"
  | undefined _ => some "names must be declared before use"
  | malformedParameters _ _ => some "syntax: fun name(a: int, b: float): int \x7b ... \x7d"
  | invalidConstant _ _ => some "constants cannot depend on run-time values; use 'var' instead"
  | notAssignable _ => some "only variables declared with 'var' can be assigned"
  | chainedComparison => some "combine comparisons with 'and' or 'or'"
  | asyncTargetMismatch _ _ _ _ => some "declare the target with the callee's return type"
  | _ => none

end ParseCause

/-- A cause with its place.  Names given by the host have no place. -/
structure ParseError where
  cause : ParseCause
  pos : Option Pos
deriving DecidableEq, Repr

/-- A token at the outermost level that starts nothing and was skipped. -/
structure ParseWarning where
  pos : Pos
  text : String
deriving DecidableEq, Repr

end Scriptlet
