import Scriptlet.Source.Position

/-!
# Tokens

A token is a lexeme with its kind and its place.  Literal tokens keep their
text; it is read where a value is needed.
-/

namespace Scriptlet

inductive TokenKind where
  | intLit | floatLit | boolLit
  | name
  | varWord | funWord | constWord | ifWord | whileWord | returnWord
  | asyncWord | awaitWord
  | intType | floatType | boolType
  | assign
  | plus | minus | star | slash | caret
  | andWord | orWord | notWord | xorWord
  | equal | notEqual | less | greater | lessEqual | greaterEqual
  | openBrace | closeBrace | openParen | closeParen
  | colon | comma
  | endOfInput
deriving DecidableEq, Repr, Inhabited

namespace TokenKind

def description : TokenKind -> String
  | intLit => "an integer"
  | floatLit => "a float"
  | boolLit => "'true' or 'false'"
  | name => "a name"
  | varWord => "'var'"
  | funWord => "'fun'"
  | constWord => "'const'"
  | ifWord => "'if'"
  | whileWord => "'while'"
  | returnWord => "'return'"
  | asyncWord => "'async'"
  | awaitWord => "'await'"
  | intType => "'int'"
  | floatType => "'float'"
  | boolType => "'bool'"
  | assign => "':='"
  | plus => "'+'"
  | minus => "'-'"
  | star => "'*'"
  | slash => "'/'"
  | caret => "'^'"
  | andWord => "'and'"
  | orWord => "'or'"
  | notWord => "'not'"
  | xorWord => "'xor'"
  | equal => "'='"
  | notEqual => "'<>'"
  | less => "'<'"
  | greater => "'>'"
  | lessEqual => "'<='"
  | greaterEqual => "'>='"
  | openBrace => "'\x7b'"
  | closeBrace => "'\x7d'"
  | openParen => "'('"
  | closeParen => "')'"
  | colon => "':'"
  | comma => "','"
  | endOfInput => "end of file"

def label : TokenKind -> String
  | intLit => "IntLit"
  | floatLit => "FloatLit"
  | boolLit => "BoolLit"
  | name => "Ident"
  | varWord => "Var"
  | funWord => "Fun"
  | constWord => "Const"
  | ifWord => "If"
  | whileWord => "While"
  | returnWord => "Return"
  | asyncWord => "Async"
  | awaitWord => "Await"
  | intType => "IntType"
  | floatType => "FloatType"
  | boolType => "BoolType"
  | assign => "Assign"
  | plus => "Plus"
  | minus => "Minus"
  | star => "Star"
  | slash => "Slash"
  | caret => "Caret"
  | andWord => "And"
  | orWord => "Or"
  | notWord => "Not"
  | xorWord => "Xor"
  | equal => "Eq"
  | notEqual => "NotEq"
  | less => "Lt"
  | greater => "Gt"
  | lessEqual => "LtEq"
  | greaterEqual => "GtEq"
  | openBrace => "LBrace"
  | closeBrace => "RBrace"
  | openParen => "LParen"
  | closeParen => "RParen"
  | colon => "Colon"
  | comma => "Comma"
  | endOfInput => "Eof"

def all : List TokenKind :=
  [intLit, floatLit, boolLit, name, varWord, funWord, constWord, ifWord, whileWord,
    returnWord, asyncWord, awaitWord, intType, floatType, boolType, assign, plus, minus, star,
    slash, caret, andWord, orWord, notWord, xorWord, equal, notEqual, less, greater,
    lessEqual, greaterEqual, openBrace, closeBrace, openParen, closeParen, colon, comma,
    endOfInput]

def startsDeclaration : TokenKind -> Bool
  | varWord | funWord | constWord => true
  | _ => false

def startsStatement : TokenKind -> Bool
  | name | openBrace | ifWord | whileWord | returnWord | asyncWord | awaitWord => true
  | _ => false

end TokenKind

structure Token where
  pos : Pos
  kind : TokenKind
  text : String
deriving DecidableEq, Repr

namespace Token

def endOfInput : Token :=
  { pos := .endOfInput, kind := .endOfInput, text := "" }

instance : Inhabited Token :=
  ⟨endOfInput⟩

def isEnd (token : Token) : Bool :=
  token.kind == .endOfInput

@[simp] theorem endOfInput_isEnd : endOfInput.isEnd = true :=
  rfl

end Token
end Scriptlet
