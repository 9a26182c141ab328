import Scriptlet.Decimal.Reading
import Scriptlet.Parser.Tokens
import Scriptlet.Program.Tables
import Scriptlet.Scope

/-!
# Expressions

From weak to strong an expression has one comparison, a chain of additive
operators, a chain of multiplicative ones, powers that group to the right, and
prefix operators.  A parenthesized expression and an argument open the levels
again; what they hold is parsed by the parameter `inner`, so that the depth of
nesting is the only recursion between the levels.

What names mean is given from outside.  An expression uses names and declares
none.

Every loop is bounded by the number of tokens left.  Each round takes a token,
so a bound of zero is met only when no token is left, and there the answer of
the bounded loop is the answer of the unbounded one.
-/

namespace Scriptlet

/-- What names mean at a place, and the tables that their meanings index. -/
structure Names where
  find : String -> Option Binding
  program : Program

namespace Parse

def literalValue? (token : Token) : Option Value :=
  match token.kind with
  | .intLit => (Reading.int64? token.text).map .int
  | .floatLit => (Reading.float? token.text).map .float
  | .boolLit => some (.bool (token.text == "true"))
  | _ => none

def literalValue (token : Token) : TokenParse Value :=
  match literalValue? token with
  | some value => return value
  | none => fail (.invalidLiteral token.text) (some token.pos)

/-!
# Names
-/

def lookup (names : Names) (name : String) (pos : Pos) : TokenParse Binding :=
  match names.find name with
  | some binding => return binding
  | none => fail (.undefined name) (some pos)

def lookupVar (names : Names) (name : String) (pos : Pos) : TokenParse VarId := do
  let binding ← lookup names name pos
  match binding.category with
  | .var => return binding.id
  | _ => fail (.notAssignable name) (some pos)

/-!
# Calls
-/

/-- The arguments behind an opening parenthesis that is not closed at once. -/
def argumentsWithin (inner : TokenParse Expr) : Nat -> TokenParse (List Expr)
  | 0 => do
      let arg ← inner
      let _ ← expect .closeParen
      return [arg]
  | limit + 1 => do
      let arg ← inner
      if ← accept .comma then
        return arg :: (← argumentsWithin inner limit)
      else
        let _ ← expect .closeParen
        return [arg]

def arguments (inner : TokenParse Expr) : TokenParse (List Expr) := do
  let _ ← expect .openParen
  if ← accept .closeParen then
    return []
  else
    argumentsWithin inner (← tokensLeft)

def callArguments (names : Names) (inner : TokenParse Expr) (callee : Binding) (pos : Pos) :
    TokenParse (List Expr) := do
  let f := names.program.function callee.id
  if f.result ≠ callee.type then
    fail (.inconsistentFunction callee.name) (some pos)
  let args ← arguments inner
  if args.length ≠ f.params.length then
    fail (.arityMismatch callee.name f.params.length args.length) (some pos)
  return args

/-!
# Operands
-/

def identifierExpr (names : Names) (inner : TokenParse Expr) (token : Token) :
    TokenParse Expr := do
  let binding ← lookup names token.text token.pos
  match binding.category with
  | .const => return .const token.pos binding.id
  | .var => return .var token.pos binding.id
  | .function =>
      return .call token.pos binding.id (← callArguments names inner binding token.pos)

def operand (names : Names) (inner : TokenParse Expr) : TokenParse Expr := do
  let token ← current
  match token.kind with
  | .intLit | .floatLit | .boolLit =>
      let _ ← advance
      return .literal token.pos (← literalValue token)
  | .name =>
      let _ ← advance
      identifierExpr names inner token
  | .openParen =>
      let _ ← advance
      let e ← inner
      let _ ← expect .closeParen
      return e.withPos token.pos
  | _ => failExpected .expression

def unaryOp? : TokenKind -> Option UnaryOp
  | .plus => some .plus
  | .minus => some .neg
  | .notWord => some .not
  | _ => none

def unaryWithin (operand : TokenParse Expr) : Nat -> TokenParse Expr
  | 0 => operand
  | limit + 1 => do
      match unaryOp? (← currentKind) with
      | some op =>
          let token ← advance
          return .unary token.pos op (← unaryWithin operand limit)
      | none => operand

def unary (operand : TokenParse Expr) : TokenParse Expr := do
  unaryWithin operand (← tokensLeft)

/-!
# Binary operators
-/

def powerWithin (base : TokenParse Expr) : Nat -> TokenParse Expr
  | 0 => base
  | limit + 1 => do
      let left ← base
      if (← currentKind) = .caret then
        let token ← advance
        return .binary token.pos .pow left (← powerWithin base limit)
      else
        return left

def power (base : TokenParse Expr) : TokenParse Expr := do
  powerWithin base (← tokensLeft)

/-- Operators of one level behind a first operand, grouped to the left. -/
def chainWithin (op? : TokenKind -> Option BinaryOp) (next : TokenParse Expr) :
    Nat -> Expr -> TokenParse Expr
  | 0, left => return left
  | limit + 1, left => do
      match op? (← currentKind) with
      | some op =>
          let token ← advance
          let right ← next
          chainWithin op? next limit (.binary token.pos op left right)
      | none => return left

def chain (op? : TokenKind -> Option BinaryOp) (next : TokenParse Expr) : TokenParse Expr := do
  let left ← next
  chainWithin op? next (← tokensLeft) left

def multiplicativeOp? : TokenKind -> Option BinaryOp
  | .star => some .mul
  | .slash => some .div
  | .andWord => some .and
  | _ => none

def additiveOp? : TokenKind -> Option BinaryOp
  | .plus => some .add
  | .minus => some .sub
  | .orWord => some .or
  | .xorWord => some .xor
  | _ => none

def comparisonOp? : TokenKind -> Option BinaryOp
  | .equal => some .equal
  | .notEqual => some .notEqual
  | .less => some .less
  | .greater => some .greater
  | .lessEqual => some .lessEqual
  | .greaterEqual => some .greaterEqual
  | _ => none

/-- One comparison at most; a second one behind it is an error. -/
def comparison (next : TokenParse Expr) : TokenParse Expr := do
  let left ← next
  match comparisonOp? (← currentKind) with
  | none => return left
  | some op =>
      let token ← advance
      let right ← next
      let behind ← current
      if (comparisonOp? behind.kind).isSome then
        fail .chainedComparison (some behind.pos)
      return .binary token.pos op left right

def levels (operand : TokenParse Expr) : TokenParse Expr :=
  comparison (chain additiveOp? (chain multiplicativeOp? (power (unary operand))))

/-!
# Nesting
-/

/-- An expression that is nested at most `depth` deep.  With no token left the
first operand is already missing. -/
def expressionWithin (names : Names) : Nat -> TokenParse Expr
  | 0 => failExpected .expression
  | depth + 1 => levels (operand names (expressionWithin names depth))

def expression (names : Names) : TokenParse Expr := do
  expressionWithin names (← tokensLeft)

def continuesExpression (kind : TokenKind) : Bool :=
  (comparisonOp? kind).isSome || (additiveOp? kind).isSome || (multiplicativeOp? kind).isSome ||
    kind == .caret || kind == .openParen

/-!
# What uses names and declares none
-/

def constantValue? (names : Names) (type : ValueType) (token : Token) : Option Value :=
  match names.find token.text with
  | some binding =>
      if binding.category = .const ∧ binding.type = type then
        some (names.program.constant binding.id).value
      else
        none
  | none => none

def constInitializer (names : Names) (name : String) (type : ValueType) : TokenParse Value := do
  let token ← current
  let invalid {α : Type} : TokenParse α := fail (.invalidConstant name type) (some token.pos)
  let value ←
    match token.kind with
    | .intLit | .floatLit | .boolLit => literalValue token
    | .name =>
        match constantValue? names type token with
        | some value => pure value
        | none => invalid
    | _ => invalid
  let _ ← advance
  if continuesExpression (← currentKind) then
    invalid
  if value.type ≠ type then
    fail (.typeMismatch name type value.type) (some token.pos)
  return value

def asyncCall (names : Names) (target : String) (targetType : ValueType) :
    TokenParse (FunId × List Expr) := do
  let callee ← expect .name
  let binding ← lookup names callee.text callee.pos
  if binding.category ≠ .function then
    fail (.notCallable callee.text) (some callee.pos)
  let args ← callArguments names (expression names) binding callee.pos
  let result := (names.program.function binding.id).result
  if result = .none ∨ result ≠ targetType then
    fail (.asyncTargetMismatch target targetType callee.text result) (some callee.pos)
  return (binding.id, args)

def nameStmt (names : Names) : TokenParse Stmt := do
  let name ← expect .name
  let binding ← lookup names name.text name.pos
  match binding.category with
  | .var =>
      if (← currentKind) = .openParen then
        fail (.notCallable name.text) (some name.pos)
      let _ ← expect .assign
      return .assign name.pos binding.id (← expression names)
  | .function =>
      let args ← callArguments names (expression names) binding name.pos
      return .call name.pos binding.id args
  | .const => fail (.notAssignable name.text) (some name.pos)

def awaitStmt (names : Names) : TokenParse Stmt := do
  let word ← expect .awaitWord
  let name ← expect .name
  return .await word.pos (← lookupVar names name.text name.pos)

def returnStmt (names : Names) : TokenParse Stmt := do
  let word ← advance
  return .ret word.pos (← expression names)

end Parse
end Scriptlet
