import Scriptlet.Token.Lexeme

/-!
# Spelling

The texts that are lexemes, by rules that stand apart from the lexer: which words are
reserved, which symbols there are, and which characters make up names, numbers and blanks.
The tables and tests of the lexer agree with them.
-/

namespace Scriptlet
namespace Lexeme

/-!
# Characters
-/

def Blank (c : Char) : Prop :=
  c = ' ' ∨ c = '\t' ∨ c = '\r' ∨ c = '\n' ∨ c = '\x0c'

def Digit (c : Char) : Prop :=
  '0' ≤ c ∧ c ≤ '9'

def NameStart (c : Char) : Prop :=
  'a' ≤ c ∧ c ≤ 'z' ∨ 'A' ≤ c ∧ c ≤ 'Z' ∨ c = '_'

def NameChar (c : Char) : Prop :=
  NameStart c ∨ Digit c

theorem isBlank_iff {c : Char} : isBlank c = true <-> Blank c := by
  simp [isBlank, Blank, or_assoc]

theorem isDigit_iff {c : Char} : isDigit c = true <-> Digit c := by
  simp [isDigit, Digit]

theorem isNameStart_iff {c : Char} : isNameStart c = true <-> NameStart c := by
  simp [isNameStart, NameStart, or_assoc]

theorem isNameChar_iff {c : Char} : isNameChar c = true <-> NameChar c := by
  rw [isNameChar, Bool.or_eq_true, isNameStart_iff, isDigit_iff, NameChar]

/-!
# Numbers
-/

/-- Digits, of which there is at least one. -/
structure Digits (cs : List Char) : Prop where
  ne_nil : cs ≠ []
  digit : forall c, c ∈ cs -> Digit c

theorem Digits.all {cs : List Char} (h : Digits cs) : forall c, c ∈ cs -> isDigit c = true :=
  fun c hc => isDigit_iff.mpr (h.digit c hc)

theorem digits_takeWhile {cs : List Char} (h : cs.takeWhile isDigit ≠ []) :
    Digits (cs.takeWhile isDigit) where
  ne_nil := h
  digit := fun c hc => isDigit_iff.mp (List.all_eq_true.mp List.all_takeWhile c hc)

inductive Exponent : List Char -> Prop where
  | unsigned {e : Char} {digits : List Char} : e = 'e' ∨ e = 'E' -> Digits digits ->
      Exponent (e :: digits)
  | signed {e sign : Char} {digits : List Char} : e = 'e' ∨ e = 'E' -> sign = '-' ∨ sign = '+' ->
      Digits digits -> Exponent (e :: sign :: digits)

inductive Number : TokenKind -> List Char -> Prop where
  | int {digits : List Char} : Digits digits -> Number .intLit digits
  | float {whole fraction exponent : List Char} : Digits whole -> Digits fraction ->
      exponent = [] ∨ Exponent exponent ->
      Number .floatLit (whole ++ '.' :: fraction ++ exponent)

/-!
# Words and symbols
-/

/-- The words that are no names: keywords, booleans, types and operators. -/
inductive Word : TokenKind -> String -> Prop where
  | varWord : Word .varWord "var"
  | funWord : Word .funWord "fun"
  | constWord : Word .constWord "const"
  | ifWord : Word .ifWord "if"
  | whileWord : Word .whileWord "while"
  | returnWord : Word .returnWord "return"
  | asyncWord : Word .asyncWord "async"
  | awaitWord : Word .awaitWord "await"
  | yes : Word .boolLit "true"
  | no : Word .boolLit "false"
  | intType : Word .intType "int"
  | floatType : Word .floatType "float"
  | boolType : Word .boolType "bool"
  | andWord : Word .andWord "and"
  | orWord : Word .orWord "or"
  | notWord : Word .notWord "not"
  | xorWord : Word .xorWord "xor"

inductive Symbol : TokenKind -> List Char -> Prop where
  | assign : Symbol .assign [':', '=']
  | notEqual : Symbol .notEqual ['<', '>']
  | lessEqual : Symbol .lessEqual ['<', '=']
  | greaterEqual : Symbol .greaterEqual ['>', '=']
  | equal : Symbol .equal ['=']
  | less : Symbol .less ['<']
  | greater : Symbol .greater ['>']
  | plus : Symbol .plus ['+']
  | minus : Symbol .minus ['-']
  | star : Symbol .star ['*']
  | slash : Symbol .slash ['/']
  | caret : Symbol .caret ['^']
  | openBrace : Symbol .openBrace ['{']
  | closeBrace : Symbol .closeBrace ['}']
  | openParen : Symbol .openParen ['(']
  | closeParen : Symbol .closeParen [')']
  | colon : Symbol .colon [':']
  | comma : Symbol .comma [',']

theorem word_iff {kind : TokenKind} {word : String} :
    Word kind word <-> (word, kind) ∈ reserved := by
  constructor
  · intro h
    cases h <;> decide
  · have hall : forall entry, entry ∈ reserved -> Word entry.2 entry.1 := by
      simp only [reserved, List.forall_mem_cons]
      exact ⟨.varWord, .funWord, .constWord, .ifWord, .whileWord, .returnWord, .asyncWord,
        .awaitWord, .yes, .no, .intType, .floatType, .boolType, .andWord, .orWord, .notWord,
        .xorWord, fun _ h => nomatch h⟩
    exact hall (word, kind)

theorem symbol_iff {kind : TokenKind} {text : List Char} :
    Symbol kind text <-> (text, kind) ∈ symbols := by
  constructor
  · intro h
    cases h <;> decide
  · have hall : forall entry, entry ∈ symbols -> Symbol entry.2 entry.1 := by
      simp only [symbols, List.forall_mem_cons]
      exact ⟨.assign, .notEqual, .lessEqual, .greaterEqual, .equal, .less, .greater, .plus,
        .minus, .star, .slash, .caret, .openBrace, .closeBrace, .openParen, .closeParen, .colon,
        .comma, fun _ h => nomatch h⟩
    exact hall (text, kind)

/-!
# Lexemes
-/

/-- The texts that are lexemes, each with its kind. -/
inductive Rule : TokenKind -> List Char -> Prop where
  | word {kind : TokenKind} {word : String} : Word kind word -> Rule kind word.toList
  | symbol {kind : TokenKind} {text : List Char} : Symbol kind text -> Rule kind text
  | number {kind : TokenKind} {text : List Char} : Number kind text -> Rule kind text
  | name {c : Char} {cs : List Char} : NameStart c -> (forall d, d ∈ cs -> NameChar d) ->
      Rule .name (c :: cs)

end Lexeme
end Scriptlet
