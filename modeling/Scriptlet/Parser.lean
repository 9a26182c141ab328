import Scriptlet.Parser.Statement
import Scriptlet.Token.Lexer

/-!
# From tokens to programs

Names given from outside come first, in scope zero.  At the outermost level a
token that starts no statement is skipped with a warning; everywhere else it is
an error.
-/

namespace Scriptlet

structure Parsed where
  program : Program
  warnings : List ParseWarning

namespace Parse

def startsTopLevel (kind : TokenKind) : Bool :=
  kind.startsDeclaration || kind.startsStatement

def topLevelWithin : Nat -> Parse (List Stmt)
  | 0 => return []
  | limit + 1 => do
      let token ← current
      if token.isEnd then
        return []
      else if startsTopLevel token.kind then
        let stmt ← statement
        return stmt :: (← topLevelWithin limit)
      else
        let _ ← advance
        modify fun s => { s with skipped := { pos := token.pos, text := token.text } :: s.skipped }
        topLevelWithin limit

def topLevel : Parse (List Stmt) := do
  topLevelWithin (← tokensLeft)

def wholeProgram {body : Type} (externs : List (Extern body)) : Parse (List Stmt) := do
  injectAll externs
  topLevel

end Parse

def parse {body : Type} (externs : List (Extern body)) (tokens : List Token) :
    Except ParseError Parsed :=
  match (Parse.wholeProgram externs).run (.ofTokens tokens) with
  | .ok (root, s) =>
      .ok { program := { s.program with root := root }, warnings := s.skipped.reverse }
  | .error e => .error e

end Scriptlet
