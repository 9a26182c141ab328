import Scriptlet.Source.Position
import Scriptlet.Text.Cut

/-!
# Lines of a source

A source is cut at its newlines.  The lines that result give the position of a
byte offset and the text that a diagnostic prints.
-/

namespace Scriptlet

def utf8Width (cs : List Char) : Nat :=
  cs.foldr (fun c n => c.utf8Size + n) 0

@[simp] theorem utf8Width_nil : utf8Width [] = 0 :=
  rfl

@[simp] theorem utf8Width_cons (c : Char) (cs : List Char) :
    utf8Width (c :: cs) = c.utf8Size + utf8Width cs :=
  rfl

theorem utf8Width_append (xs ys : List Char) :
    utf8Width (xs ++ ys) = utf8Width xs + utf8Width ys := by
  induction xs with
  | nil =>
      simp
  | cons x xs ih =>
      simp [ih, Nat.add_assoc]

/-- The pieces between the newlines; a source without one is a single line. -/
def splitLines (cs : List Char) : List (List Char) :=
  Text.cutAt '\n' cs

def dropTrailing (c : Char) (cs : List Char) : List Char :=
  (cs.reverse.dropWhile (· == c)).reverse

structure LineMap where
  lines : List (List Char)
deriving Repr

namespace LineMap

def ofSource (source : String) : LineMap :=
  { lines := splitLines source.toList }

def word (n : Nat) : Nat :=
  n % 4294967296

def lineCount (map : LineMap) : Nat :=
  word map.lines.length

/-- Walks from line `line` to the one that holds the offset.  A line holds its
own newline, and the last line holds every offset that is left. -/
def posFrom (line : Nat) : List (List Char) -> Nat -> Pos
  | [], offset => { line := word line, column := word (offset + 1) }
  | [_], offset => { line := word line, column := word (offset + 1) }
  | text :: next :: rest, offset =>
      if offset ≤ utf8Width text then
        { line := word line, column := word (offset + 1) }
      else
        posFrom (line + 1) (next :: rest) (offset - (utf8Width text + 1))

def pos (map : LineMap) (offset : Nat) : Pos :=
  posFrom 1 map.lines offset

/-- The text of a line counted from one, without its newline and without the
carriage returns before it. -/
def lineText (map : LineMap) (line : Nat) : Option String :=
  match line with
  | 0 => none
  | index + 1 =>
      (map.lines[index]?).map fun text => String.ofList (dropTrailing '\r' text)

end LineMap
end Scriptlet
