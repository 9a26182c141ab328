import Mathlib.Data.List.Induction
import Scriptlet.Source.LineMap

/-!
# Positions and byte offsets

A position denotes a byte offset: the bytes of the lines before its line, with their
newlines, and those before its column.  A line map finds the line of an offset and the
distance to the start of the line, both cut down to words of 32 bits.
-/

namespace Scriptlet

def linesWidth (lines : List (List Char)) : Nat :=
  lines.foldr (fun text n => utf8Width text + 1 + n) 0

@[simp] theorem linesWidth_nil : linesWidth [] = 0 :=
  rfl

@[simp] theorem linesWidth_cons (text : List Char) (lines : List (List Char)) :
    linesWidth (text :: lines) = utf8Width text + 1 + linesWidth lines :=
  rfl

theorem linesWidth_append (xs ys : List (List Char)) :
    linesWidth (xs ++ ys) = linesWidth xs + linesWidth ys := by
  induction xs with
  | nil =>
      simp
  | cons text xs ih =>
      simp [ih, Nat.add_assoc]

namespace LineMap

/-- The byte offset that a position denotes, if it has a line and a column there.  The
column behind the last character of a line is that of its newline. -/
def offset? (map : LineMap) (pos : Pos) : Option Nat :=
  match pos.line, pos.column with
  | line + 1, column + 1 =>
      match map.lines.drop line with
      | [] => none
      | text :: _ =>
          if column ≤ utf8Width text then some (linesWidth (map.lines.take line) + column)
          else none
  | _, _ => none

end LineMap

/-!
# The two parts of a source
-/

theorem splitLines_ne_nil (cs : List Char) : splitLines cs ≠ [] := by
  intro hnil
  have hlength := Text.length_cutAt '\n' cs
  rw [splitLines] at hnil
  rw [hnil] at hlength
  cases hlength

theorem splitLines_cons {c : Char} (hc : c ≠ '\n') {cs here : List Char}
    {later : List (List Char)} (hcs : splitLines cs = here :: later) :
    splitLines (c :: cs) = (c :: here) :: later := by
  rw [splitLines] at hcs ⊢
  rw [Text.cutAt, if_neg hc, hcs]

/-- Where a text ends inside of a source: behind some whole lines and in the middle of the
next one. -/
structure EndsAt (before after : List Char) (earlier : List (List Char)) (left here : List Char)
    (later : List (List Char)) : Prop where
  rest : splitLines after = here :: later
  source : splitLines (before ++ after) = earlier ++ (left ++ here) :: later
  width : utf8Width before = linesWidth earlier + utf8Width left

theorem exists_endsAt (before after : List Char) :
    exists earlier left here later, EndsAt before after earlier left here later := by
  induction before using List.reverseRecOn generalizing after with
  | nil =>
      obtain ⟨here, later, hafter⟩ := List.exists_cons_of_ne_nil (splitLines_ne_nil after)
      exact ⟨[], [], here, later, hafter, hafter, rfl⟩
  | append_singleton before c ih =>
      obtain ⟨here, later, hafter⟩ := List.exists_cons_of_ne_nil (splitLines_ne_nil after)
      obtain ⟨earlier, left, here', later', h⟩ := ih (c :: after)
      have hsource : splitLines (before ++ [c] ++ after) = earlier ++ (left ++ here') :: later' := by
        rw [List.append_assoc]
        exact h.source
      have hwidth : utf8Width (before ++ [c]) =
          linesWidth earlier + utf8Width left + c.utf8Size := by
        rw [utf8Width_append, h.width]
        rfl
      by_cases hc : c = '\n'
      · -- The newline ends the line, and the rest of the source starts the next one.
        subst hc
        have hparts := h.rest.symm.trans (Text.cutAt_mark '\n' after)
        rw [List.cons.injEq] at hparts
        refine ⟨earlier ++ [left], [], here, later, hafter, ?_, ?_⟩
        · rw [hsource, hparts.1, hparts.2, List.append_nil, List.append_assoc]
          exact congrArg (fun lines => earlier ++ left :: lines) hafter
        · rw [hwidth, linesWidth_append]
          rfl
      · have hparts := h.rest.symm.trans (splitLines_cons hc hafter)
        rw [List.cons.injEq] at hparts
        refine ⟨earlier, left ++ [c], here, later, hafter, ?_, ?_⟩
        · rw [hsource, hparts.1, hparts.2, List.append_assoc]
          rfl
        · rw [hwidth, utf8Width_append, Nat.add_assoc]
          rfl

/-!
# Finding the position of an offset
-/

namespace LineMap

theorem posFrom_behind (line : Nat) (earlier : List (List Char)) {text : List Char}
    (later : List (List Char)) {column : Nat} (hcolumn : column ≤ utf8Width text) :
    posFrom line (earlier ++ text :: later) (linesWidth earlier + column) =
      { line := word (line + earlier.length), column := word (column + 1) } := by
  induction earlier generalizing line with
  | nil =>
      cases later with
      | nil => simp [posFrom]
      | cons next rest => simp [posFrom, hcolumn]
  | cons first earlier ih =>
      have hrest : exists next rest, earlier ++ text :: later = next :: rest :=
        List.exists_cons_of_ne_nil (by simp)
      have hbehind : ¬ linesWidth (first :: earlier) + column ≤ utf8Width first := by
        rw [linesWidth_cons]
        omega
      have hoffset : linesWidth (first :: earlier) + column - (utf8Width first + 1) =
          linesWidth earlier + column := by
        rw [linesWidth_cons]
        omega
      obtain ⟨next, rest, hrest⟩ := hrest
      have hstep := ih (line + 1)
      rw [hrest] at hstep
      rw [List.cons_append, hrest, posFrom, if_neg hbehind, hoffset, hstep, List.length_cons,
        Nat.add_assoc, Nat.add_comm 1]

end LineMap
end Scriptlet
