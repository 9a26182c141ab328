import Scriptlet.Token.Lexeme

/-!
# From text to tokens

The lexer keeps going after text that no rule accepts and collects what it could
not read.  It gives up before the group of unknown characters that would be one
too many.
-/

namespace Scriptlet

/-- Unknown characters that touch, with the position of the first. -/
structure LexError where
  pos : Pos
  text : String
deriving DecidableEq, Repr

namespace LexError

def message (error : LexError) : String :=
  "unexpected `" ++ error.text ++ "` at " ++ error.pos.text

def limit : Nat := 20

end LexError

structure Lexed where
  tokens : List Token
  errors : List LexError
deriving DecidableEq, Repr

namespace Lexed

def isOk (result : Lexed) : Bool :=
  result.errors.isEmpty

def token? : Pos × Piece -> Option Token
  | (pos, .lexeme kind text) => some { pos := pos, kind := kind, text := String.ofList text }
  | _ => none

def error? : Pos × Piece -> Option LexError
  | (pos, .unknown text) => some { pos := pos, text := String.ofList text }
  | _ => none

def pieces (source : String) : List (Pos × Piece) :=
  Piece.beforeUnknown LexError.limit
    (Piece.place (.ofSource source) 0 (Piece.joinUnknown (Piece.cut source.toList)))

end Lexed

/-- Reads a source.  The tokens end with one mark for the end of the input. -/
def lex (source : String) : Lexed :=
  let pieces := Lexed.pieces source
  { tokens := pieces.filterMap Lexed.token? ++ [Token.endOfInput]
    errors := pieces.filterMap Lexed.error? }

end Scriptlet
