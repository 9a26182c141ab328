import Scriptlet.Source.LineMap
import Scriptlet.Token

/-!
# Lexemes

The spelling rules of the language over lists of characters.  A source is cut
into pieces from the left, each as long as a rule allows: blanks, comments,
lexemes, and single characters that no rule accepts.
-/

namespace Scriptlet
namespace Lexeme

def isBlank (c : Char) : Bool :=
  c == ' ' || c == '\t' || c == '\r' || c == '\n' || c == '\x0c'

def isDigit (c : Char) : Bool :=
  '0' ≤ c && c ≤ '9'

def isNameStart (c : Char) : Bool :=
  ('a' ≤ c && c ≤ 'z') || ('A' ≤ c && c ≤ 'Z') || c == '_'

def isNameChar (c : Char) : Bool :=
  isNameStart c || isDigit c

/-!
# Words

A word is a name unless it is reserved.
-/

def reserved : List (String × TokenKind) :=
  [("var", .varWord), ("fun", .funWord), ("const", .constWord), ("if", .ifWord),
    ("while", .whileWord), ("return", .returnWord), ("async", .asyncWord),
    ("await", .awaitWord), ("true", .boolLit), ("false", .boolLit), ("int", .intType),
    ("float", .floatType), ("bool", .boolType), ("and", .andWord), ("or", .orWord),
    ("not", .notWord), ("xor", .xorWord)]

def wordKind (text : List Char) : TokenKind :=
  (reserved.lookup (String.ofList text)).getD .name

/-!
# Numbers

A float needs digits on both sides of its point.  Its exponent counts only when
it is complete, so that `1.5e` is the float `1.5` before the name `e`.
-/

def signOf : List Char -> List Char
  | [] => []
  | c :: _ => if c == '-' || c == '+' then [c] else []

def exponentOf : List Char -> List Char
  | [] => []
  | c :: cs =>
      if c == 'e' || c == 'E' then
        let sign := signOf cs
        match (cs.drop sign.length).takeWhile isDigit with
        | [] => []
        | digits => c :: (sign ++ digits)
      else
        []

def fractionOf : List Char -> List Char
  | [] => []
  | c :: cs =>
      if c == '.' then
        match cs.takeWhile isDigit with
        | [] => []
        | digits => c :: digits
      else
        []

def numberOf (cs : List Char) : TokenKind × List Char :=
  let whole := cs.takeWhile isDigit
  match fractionOf (cs.drop whole.length) with
  | [] => (.intLit, whole)
  | fraction =>
      let exponent := exponentOf (cs.drop (whole.length + fraction.length))
      (.floatLit, whole ++ fraction ++ exponent)

/-!
# Operators and delimiters

The longer of two operators wins.
-/

def symbols : List (List Char × TokenKind) :=
  [([':', '='], .assign), (['<', '>'], .notEqual), (['<', '='], .lessEqual),
    (['>', '='], .greaterEqual), (['='], .equal), (['<'], .less), (['>'], .greater),
    (['+'], .plus), (['-'], .minus), (['*'], .star), (['/'], .slash), (['^'], .caret),
    (['{'], .openBrace), (['}'], .closeBrace), (['('], .openParen), ([')'], .closeParen),
    ([':'], .colon), ([','], .comma)]

def symbolOf (cs : List Char) : Option (TokenKind × List Char) :=
  (symbols.find? fun entry => entry.1.isPrefixOf cs).map fun entry => (entry.2, entry.1)

def longest? (cs : List Char) : Option (TokenKind × List Char) :=
  match cs with
  | [] => none
  | c :: _ =>
      if isNameStart c then
        let word := cs.takeWhile isNameChar
        some (wordKind word, word)
      else if isDigit c then
        some (numberOf cs)
      else
        symbolOf cs

end Lexeme

/-!
# Pieces

Cutting a source loses nothing: the texts of its pieces, in order, are the
source again.
-/

inductive Piece where
  | skipped (text : List Char)
  | lexeme (kind : TokenKind) (text : List Char)
  | unknown (text : List Char)
deriving DecidableEq, Repr

namespace Piece

def text : Piece -> List Char
  | skipped text => text
  | lexeme _ text => text
  | unknown text => text

def isUnknown : Piece -> Bool
  | unknown _ => true
  | _ => false

def first (c : Char) (cs : List Char) : Piece :=
  if Lexeme.isBlank c then
    skipped ((c :: cs).takeWhile Lexeme.isBlank)
  else if c == '#' then
    skipped (c :: cs.takeWhile (· != '\n'))
  else
    match Lexeme.longest? (c :: cs) with
    | some (kind, text) => lexeme kind text
    | none => unknown [c]

def cutWithin : Nat -> List Char -> List Piece
  | _, [] => []
  | 0, _ => []
  | limit + 1, c :: cs =>
      let piece := first c cs
      piece :: cutWithin limit ((c :: cs).drop piece.text.length)

/-- All pieces of a source, which are no more than its characters. -/
def cut (cs : List Char) : List Piece :=
  cutWithin cs.length cs

def joinUnknown : List Piece -> List Piece
  | [] => []
  | piece :: rest =>
      match piece, joinUnknown rest with
      | unknown xs, unknown ys :: tail => unknown (xs ++ ys) :: tail
      | piece, joined => piece :: joined

def place (map : LineMap) : Nat -> List Piece -> List (Pos × Piece)
  | _, [] => []
  | offset, piece :: rest =>
      (map.pos offset, piece) :: place map (offset + utf8Width piece.text) rest

def beforeUnknown : Nat -> List (Pos × Piece) -> List (Pos × Piece)
  | _, [] => []
  | limit, entry :: rest =>
      if entry.2.isUnknown then
        match limit with
        | 0 => []
        | limit + 1 => entry :: beforeUnknown limit rest
      else
        entry :: beforeUnknown limit rest

end Piece
end Scriptlet
