import Scriptlet.Parser.Error

/-!
# Reading tokens

The part of the parser that works on the token list alone.  It takes tokens from
the front of the list and neither sees nor binds names.
-/

namespace Scriptlet

abbrev TokenParse (α : Type) := StateT (List Token) (Except ParseError) α

/-- The token at the front; behind the last one stands the end of the input. -/
def frontToken (tokens : List Token) : Token :=
  tokens.headD .endOfInput

def dropFront (tokens : List Token) : List Token :=
  if (frontToken tokens).isEnd then tokens else tokens.tail

namespace Parse

def fail {m : Type -> Type} [MonadExcept ParseError m] {α : Type} (cause : ParseCause)
    (pos : Option Pos) : m α :=
  throw { cause := cause, pos := pos }

def current : TokenParse Token := do
  return frontToken (← get)

def currentKind : TokenParse TokenKind := do
  return (frontToken (← get)).kind

/-- A bound for the loops of the parser: each round takes a token. -/
def tokensLeft : TokenParse Nat := do
  return (← get).length

def advance : TokenParse Token := do
  let tokens ← get
  set (dropFront tokens)
  return frontToken tokens

def accept (kind : TokenKind) : TokenParse Bool := do
  if (← currentKind) = kind then
    let _ ← advance
    return true
  else
    return false

def failExpected {α : Type} (expected : Expectation) : TokenParse α := do
  let token ← current
  fail (.unexpectedToken expected token.kind) (some token.pos)

def expect (kind : TokenKind) : TokenParse Token := do
  if (← currentKind) = kind then advance else failExpected (.token kind)

def typeOf? : TokenKind -> Option ValueType
  | .intType => some .int
  | .floatType => some .float
  | .boolType => some .bool
  | _ => none

def expectType : TokenParse ValueType := do
  match typeOf? (← currentKind) with
  | some type =>
      let _ ← advance
      return type
  | none => failExpected .type

/-!
# Parameter lists
-/

/-- A parameter as it is written. -/
structure Parameter where
  name : String
  type : ValueType
  pos : Option Pos

def malformed : ParseError -> ParseError
  | ⟨.unexpectedToken expected found, pos⟩ => ⟨.malformedParameters expected found, pos⟩
  | error => error

def inParameters {α : Type} (p : TokenParse α) : TokenParse α :=
  fun tokens => (p tokens).mapError malformed

def parameter : TokenParse Parameter := do
  let name ← inParameters (expect .name)
  let _ ← inParameters (expect .colon)
  let type ← inParameters expectType
  return { name := name.text, type := type, pos := some name.pos }

def parametersWithin : Nat -> TokenParse (List Parameter)
  | 0 => do
      let p ← parameter
      let _ ← inParameters (expect .closeParen)
      return [p]
  | limit + 1 => do
      let p ← parameter
      if ← accept .comma then
        return p :: (← parametersWithin limit)
      else
        let _ ← inParameters (expect .closeParen)
        return [p]

def parameters : TokenParse (List Parameter) := do
  let _ ← expect .openParen
  if ← accept .closeParen then
    return []
  else
    parametersWithin (← tokensLeft)

end Parse
end Scriptlet
