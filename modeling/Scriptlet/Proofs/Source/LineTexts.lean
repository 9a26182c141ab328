import Mathlib.Data.List.TakeWhile
import Scriptlet.Proofs.Source.Bytes

/-!
# Lines and the positions on them

A line map shows each line of a source without the newline and the carriage returns at its
end.  A character that is no part of such an end stands in the text of its line, at the
column of its position.
-/

namespace Scriptlet

/-!
# Carriage returns at the end
-/

theorem dropTrailing_eq (c : Char) (cs : List Char) :
    exists n, cs = dropTrailing c cs ++ List.replicate n c := by
  have hsplit := List.takeWhile_append_dropWhile (p := (· == c)) (l := cs.reverse)
  have hrun : forall x, x ∈ cs.reverse.takeWhile (· == c) -> x = c := by
    intro x hx
    simpa using List.mem_takeWhile_imp hx
  refine ⟨(cs.reverse.takeWhile (· == c)).length, ?_⟩
  have hreplicate := List.eq_replicate_of_mem hrun
  have hcs := congrArg List.reverse hsplit
  rw [List.reverse_append, List.reverse_reverse] at hcs
  rw [← List.reverse_replicate, ← hreplicate]
  exact hcs.symm

theorem getLast?_dropTrailing (c : Char) (cs : List Char) :
    (dropTrailing c cs).getLast? ≠ some c := by
  rw [dropTrailing, List.getLast?_reverse]
  intro hhead
  have hnot := List.head?_dropWhile_not (· == c) cs.reverse
  rw [hhead] at hnot
  simp at hnot

theorem dropTrailing_keeps {c x : Char} (left : List Char) {cs : List Char}
    (hx : x ∈ cs) (hne : x ≠ c) : exists kept, dropTrailing c (left ++ cs) = left ++ kept ∧
      kept <+: cs ∧ kept ≠ [] := by
  rcases dropTrailing_eq c (left ++ cs) with ⟨n, hsplit⟩
  rcases List.append_eq_append_iff.mp hsplit with ⟨kept, hkept, hcs⟩ | ⟨rest, _, hrun⟩
  · refine ⟨kept, hkept, ⟨List.replicate n c, hcs.symm⟩, ?_⟩
    intro hnil
    rw [hnil, List.nil_append] at hcs
    rw [hcs] at hx
    exact hne (List.eq_of_mem_replicate hx)
  · have hmem : x ∈ List.replicate n c := by
      rw [hrun]
      exact List.mem_append_right _ hx
    exact absurd (List.eq_of_mem_replicate hmem) hne

/-!
# The text of a line
-/

/-- A stretch of characters between two newlines, or up to an end of the source, which has the
given number among the lines. -/
structure StandsOnLine (cs : List Char) (line : Nat) (earlier text later : List Char) : Prop where
  source : cs = earlier ++ text ++ later
  number : line = 1 + earlier.count '\n'
  start : earlier = [] ∨ earlier.getLast? = some '\n'
  inside : '\n' ∉ text
  stop : later = [] ∨ later.head? = some '\n'

theorem count_joinLines {lines : List (List Char)}
    (hlines : forall text, text ∈ lines -> '\n' ∉ text) :
    (joinLines lines).count '\n' = lines.length := by
  induction lines with
  | nil => rfl
  | cons text lines ih =>
      have htext : text.count '\n' = 0 := List.count_eq_zero.mpr (hlines text List.mem_cons_self)
      have hrest := ih fun text' htext' => hlines text' (List.mem_cons_of_mem _ htext')
      rw [joinLines_cons, List.count_append, List.count_cons_self, htext, hrest,
        List.length_cons, Nat.zero_add]

theorem joinLines_ends (lines : List (List Char)) :
    joinLines lines = [] ∨ (joinLines lines).getLast? = some '\n' := by
  induction lines using List.reverseRecOn with
  | nil => exact .inl rfl
  | append_singleton lines text ih =>
      right
      rw [joinLines_append, joinLines_cons]
      simp [joinLines]

theorem standsOnLine {cs text : List Char} {earlier later : List (List Char)}
    (hlines : splitLines cs = earlier ++ text :: later) :
    exists behind, StandsOnLine cs (1 + earlier.length) (joinLines earlier) text behind := by
  have hfree : forall line, line ∈ earlier ++ text :: later -> '\n' ∉ line := by
    intro line hline
    rw [← hlines] at hline
    exact not_mem_of_mem_splitLines hline
  have hjoined : cs ++ ['\n'] = joinLines earlier ++ text ++ '\n' :: joinLines later := by
    rw [← joinLines_splitLines, hlines, joinLines_append, joinLines_cons, List.append_assoc]
  have hcount : (joinLines earlier).count '\n' = earlier.length :=
    count_joinLines fun line hline => hfree line (List.mem_append_left _ hline)
  have htext : '\n' ∉ text := hfree text (List.mem_append_right _ List.mem_cons_self)
  rcases joinLines_ends later with hlast | hlast
  · refine ⟨[], ?_, by rw [hcount], joinLines_ends earlier, htext, .inl rfl⟩
    rw [hlast] at hjoined
    rw [List.append_nil]
    exact List.append_cancel_right hjoined
  · rcases List.getLast?_eq_some_iff.mp hlast with ⟨front, hfront⟩
    refine ⟨'\n' :: front, ?_, by rw [hcount], joinLines_ends earlier, htext, .inr rfl⟩
    rw [hfront, ← List.cons_append, ← List.append_assoc] at hjoined
    exact List.append_cancel_right hjoined

namespace LineMap

theorem lineText_isSome {map : LineMap} {line : Nat} :
    (map.lineText line).isSome = true <-> 1 ≤ line ∧ line ≤ map.lines.length := by
  cases line with
  | zero => simp [lineText]
  | succ index =>
      have hisSome : (map.lineText (index + 1)).isSome = true <-> index < map.lines.length := by
        simp [lineText]
      rw [hisSome]
      omega

theorem lineText_of_lines {map : LineMap} {text : List Char} {earlier later : List (List Char)}
    (hlines : map.lines = earlier ++ text :: later) :
    map.lineText (1 + earlier.length) = some (String.ofList (dropTrailing '\r' text)) := by
  rw [Nat.add_comm, lineText, hlines]
  simp

/-- The text of a line is what stands on it, without the carriage returns at the end. -/
theorem exists_standsOnLine {source : String} {line : Nat} (hlow : 1 ≤ line)
    (hhigh : line ≤ (ofSource source).lines.length) :
    exists earlier shown returns later,
      StandsOnLine source.toList line earlier (shown.toList ++ List.replicate returns '\r') later ∧
        shown.toList.getLast? ≠ some '\r' ∧ (ofSource source).lineText line = some shown := by
  have hlt : line - 1 < (ofSource source).lines.length := by omega
  have hlines : (ofSource source).lines = (ofSource source).lines.take (line - 1) ++
      (ofSource source).lines[line - 1] :: (ofSource source).lines.drop line := by
    have hdrop := List.drop_eq_getElem_cons hlt
    rw [Nat.sub_add_cancel hlow] at hdrop
    rw [← hdrop, List.take_append_drop]
  have hnumber : 1 + ((ofSource source).lines.take (line - 1)).length = line := by
    rw [List.length_take, Nat.min_eq_left (Nat.le_of_lt hlt)]
    omega
  have htext := lineText_of_lines hlines
  rw [hnumber] at htext
  rcases standsOnLine hlines with ⟨behind, hstands⟩
  rw [hnumber] at hstands
  rcases dropTrailing_eq '\r' (ofSource source).lines[line - 1] with ⟨returns, hreturns⟩
  refine ⟨joinLines ((ofSource source).lines.take (line - 1)), _, returns, behind, ?_, ?_, htext⟩
  · rw [String.toList_ofList, ← hreturns]
    exact hstands
  · rw [String.toList_ofList]
    exact getLast?_dropTrailing '\r' _

/-!
# Characters on their lines
-/

theorem splitLines_head {cs here : List Char} {later : List (List Char)}
    (hcs : splitLines cs = here :: later) : here = cs.takeWhile (· ≠ '\n') := by
  induction cs generalizing here later with
  | nil =>
      cases hcs
      rfl
  | cons c cs ih =>
      by_cases hc : c = '\n'
      · subst hc
        have hsplit : splitLines ('\n' :: cs) = [] :: splitLines cs := Text.cutAt_mark '\n' cs
        rw [hsplit] at hcs
        cases hcs
        rfl
      · rcases List.exists_cons_of_ne_nil (splitLines_ne_nil cs) with ⟨first, rest, hfirst⟩
        rw [splitLines_cons hc hfirst, List.cons.injEq] at hcs
        rw [← hcs.1, ih hfirst, List.takeWhile_cons, if_pos (by simpa using hc)]

theorem char_on_line {source : String} {before after : List Char} {c x : Char}
    (hsource : source.toList = before ++ c :: after)
    (hx : x ∈ (c :: after).takeWhile (· ≠ '\n')) (hne : x ≠ '\r')
    (hword : utf8Width before + 1 < 4294967296) :
    exists shown left right,
      (ofSource source).lineText ((ofSource source).pos (utf8Width before)).line = some shown ∧
        shown.toList = left ++ c :: right ∧
        ((ofSource source).pos (utf8Width before)).column = utf8Width left + 1 := by
  rcases exists_endsAt before (c :: after) with ⟨earlier, left, here, later, hends⟩
  have hhere : here = (c :: after).takeWhile (· ≠ '\n') := splitLines_head hends.rest
  have hlines : (ofSource source).lines = earlier ++ (left ++ here) :: later := by
    rw [ofSource, hsource]
    exact hends.source
  have hcolumn : utf8Width left ≤ utf8Width (left ++ here) := by
    rw [utf8Width_append]
    exact Nat.le_add_right _ _
  have hoffset : utf8Width before ≤ (sourceBytes source).length := by
    rw [length_sourceBytes, hsource, utf8Width_append]
    exact Nat.le_add_right _ _
  have hlies : LiesAt source (utf8Width before) earlier (left ++ here) later (utf8Width left) :=
    ⟨hlines, hends.width, hcolumn⟩
  have hpos := (pos_eq_behind hoffset hword).trans (hlies.behind hoffset)
  rw [← hhere] at hx
  rcases dropTrailing_keeps left hx hne with ⟨kept, hshown, hprefix, hkept⟩
  rcases List.exists_cons_of_ne_nil hkept with ⟨first, right, rfl⟩
  have hfirst : first = c := by
    have htake := hprefix.trans (hhere ▸ List.takeWhile_prefix (· ≠ '\n'))
    exact (List.cons_prefix_cons.mp htake).1
  refine ⟨String.ofList (dropTrailing '\r' (left ++ here)), left, right, ?_, ?_, ?_⟩
  · rw [hpos]
    exact lineText_of_lines hlines
  · rw [String.toList_ofList, hshown, hfirst]
  · rw [hpos]
    exact Nat.add_comm _ _

/-!
# Offsets, positions and lines
-/

/-- Offsets and positions of a source stand for each other, and the lines that are shown are
those on which the positions lie. -/
structure OffsetsMatch (source : String) : Prop where
  position : forall offset, offset ≤ (sourceBytes source).length ->
    (ofSource source).pos offset = Pos.behind ((sourceBytes source).take offset)
  increasing : forall a b, a < b -> b ≤ (sourceBytes source).length ->
    ((ofSource source).pos a).before ((ofSource source).pos b) = true
  recovered : forall offset, offset ≤ (sourceBytes source).length ->
    (ofSource source).offset? ((ofSource source).pos offset) = some offset
  lineCount : (ofSource source).lineCount = 1 + source.toList.count '\n'
  shown : forall line, ((ofSource source).lineText line).isSome = true <->
    1 ≤ line ∧ line ≤ (ofSource source).lineCount
  /-- A line is shown as what stands between two newlines, or up to an end of the source,
  without all carriage returns at its end. -/
  text : forall line, 1 ≤ line -> line ≤ (ofSource source).lineCount ->
    exists earlier shown returns later,
      StandsOnLine source.toList line earlier (shown.toList ++ List.replicate returns '\r') later ∧
        shown.toList.getLast? ≠ some '\r' ∧ (ofSource source).lineText line = some shown
  /-- A character stands on its line at its column, unless nothing but carriage returns
  stands from there to the next newline. -/
  found : forall before c after, source.toList = before ++ c :: after ->
    (exists x, x ∈ (c :: after).takeWhile (· ≠ '\n') ∧ x ≠ '\r') ->
    exists shown left right,
      (ofSource source).lineText ((ofSource source).pos (utf8Width before)).line = some shown ∧
        shown.toList = left ++ c :: right ∧
        ((ofSource source).pos (utf8Width before)).column = utf8Width left + 1

section

variable {source : String}

theorem length_lines (source : String) :
    (ofSource source).lines.length = 1 + source.toList.count '\n' := by
  rw [ofSource, splitLines, Text.length_cutAt, Nat.add_comm]

theorem lineCount_eq (hsize : (sourceBytes source).length + 1 < 4294967296) :
    (ofSource source).lineCount = (ofSource source).lines.length := by
  have hnewlines := List.count_le_length (a := '\n') (l := source.toList)
  have hbytes := length_le_utf8Width source.toList
  rw [← length_sourceBytes] at hbytes
  apply word_of_lt
  rw [length_lines]
  omega

theorem pos_increasing {a b : Nat} (hlt : a < b) (hle : b ≤ (sourceBytes source).length)
    (hword : b + 1 < 4294967296) :
    ((ofSource source).pos a).before ((ofSource source).pos b) = true := by
  have hsplit : (sourceBytes source).take b =
      (sourceBytes source).take a ++ ((sourceBytes source).drop a).take (b - a) := by
    rw [← List.take_add, Nat.add_sub_of_le (Nat.le_of_lt hlt)]
  have hmore : ((sourceBytes source).drop a).take (b - a) ≠ [] := by
    apply List.ne_nil_of_length_pos
    rw [List.length_take, List.length_drop]
    omega
  rw [pos_eq_behind hle hword, pos_eq_behind (by omega) (by omega), hsplit]
  exact Pos.before_behind hmore

end

/-- In a source of less than `2 ^ 32 - 1` bytes offsets and positions correspond: the numbers
of its lines, and those of its columns up to the end, are words of 32 bits. -/
theorem offsets_match_positions (source : String)
    (hsize : (sourceBytes source).length < 4294967295) : OffsetsMatch source where
  position := fun _ h => pos_eq_behind h (by omega)
  increasing := fun _ _ hlt h => pos_increasing hlt h (by omega)
  recovered := fun _ h => offset?_pos h (by omega)
  lineCount := (lineCount_eq (by omega)).trans (length_lines source)
  shown := by
    intro line
    rw [lineText_isSome, lineCount_eq (by omega)]
  text := by
    intro line hlow hhigh
    rw [lineCount_eq (by omega)] at hhigh
    exact exists_standsOnLine hlow hhigh
  found := by
    intro before c after hsource hends
    rcases hends with ⟨x, hx, hne⟩
    apply char_on_line hsource hx hne
    have hpos := c.utf8Size_pos
    rw [length_sourceBytes, hsource, utf8Width_append, utf8Width_cons] at hsize
    omega

theorem offsets_match_positions_accents :
    (sourceBytes "é := 1\r\r\nβ\n").length < 4294967295 ∧ OffsetsMatch "é := 1\r\r\nβ\n" := by
  have hsize : (sourceBytes "é := 1\r\r\nβ\n").length < 4294967295 := by decide
  exact ⟨hsize, offsets_match_positions _ hsize⟩

def letters (n : Nat) : String :=
  String.ofList (List.replicate n 'a')

theorem length_letters (n : Nat) : (sourceBytes (letters n)).length = n := by
  rw [length_sourceBytes, letters, String.toList_ofList]
  induction n with
  | zero => rfl
  | succ n ih =>
      have hsize : Char.utf8Size 'a' = 1 := rfl
      rw [List.replicate_succ, utf8Width_cons, ih, hsize, Nat.add_comm]

theorem lines_letters (n : Nat) : (ofSource (letters n)).lines = [List.replicate n 'a'] := by
  rw [ofSource, letters, String.toList_ofList]
  induction n with
  | zero => rfl
  | succ n ih =>
      have ha : 'a' ≠ '\n' := by decide
      exact splitLines_cons ha ih

/-- Behind a line of `2 ^ 32 - 1` letters the column is zero, which is no column of a line. -/
theorem not_offsetsMatch_letters :
    (sourceBytes (letters 4294967295)).length < 4294967296 ∧
      ¬ OffsetsMatch (letters 4294967295) := by
  have hlength := length_letters 4294967295
  refine ⟨by omega, ?_⟩
  intro hmatch
  have hrecovered := hmatch.recovered 4294967295 (by omega)
  have hpos : (ofSource (letters 4294967295)).pos 4294967295 = { line := 1, column := 0 } := by
    rw [pos, lines_letters]
    rfl
  rw [hpos] at hrecovered
  cases hrecovered

end LineMap
end Scriptlet
