import Scriptlet.Proofs.Source.Offsets

/-!
# Positions and the bytes of a source

The line of a byte offset is one more than the number of newlines before the offset, and
its column is one more than the number of bytes behind the last of them.  Positions grow
with the offset, and the text of a line is what stands between two newlines.
-/

namespace Scriptlet

def utf8Bytes (cs : List Char) : List UInt8 :=
  cs.flatMap String.utf8EncodeChar

/-- The byte of a newline, which is a part of no other character. -/
def newlineByte : UInt8 :=
  10

@[simp] theorem utf8Bytes_nil : utf8Bytes [] = [] :=
  rfl

@[simp] theorem utf8Bytes_cons (c : Char) (cs : List Char) :
    utf8Bytes (c :: cs) = String.utf8EncodeChar c ++ utf8Bytes cs :=
  rfl

theorem utf8Bytes_append (xs ys : List Char) :
    utf8Bytes (xs ++ ys) = utf8Bytes xs ++ utf8Bytes ys :=
  List.flatMap_append

@[simp] theorem length_utf8Bytes (cs : List Char) : (utf8Bytes cs).length = utf8Width cs := by
  induction cs with
  | nil => rfl
  | cons c cs ih => simp [ih]

theorem length_le_utf8Width (cs : List Char) : cs.length ≤ utf8Width cs := by
  induction cs with
  | nil => exact Nat.le_refl 0
  | cons c cs ih =>
      have hpos := c.utf8Size_pos
      rw [List.length_cons, utf8Width_cons]
      omega

theorem newlineByte_mem_char {c : Char} : newlineByte ∈ String.utf8EncodeChar c <-> c = '\n' := by
  have hchar : c = '\n' <-> c.val.toNat = 10 := by
    rw [Char.ext_iff, ← UInt32.toNat_inj]
    rfl
  have hbyte : forall n, newlineByte = UInt8.ofNat n <-> n % 256 = 10 := by
    intro n
    rw [eq_comm, ← UInt8.toNat_inj, UInt8.toNat_ofNat']
    rfl
  rw [hchar, String.utf8EncodeChar]
  split
  · simp only [List.mem_singleton, hbyte]
    omega
  · split
    · simp only [List.mem_cons, List.not_mem_nil, or_false, hbyte]
      omega
    · split
      · simp only [List.mem_cons, List.not_mem_nil, or_false, hbyte]
        omega
      · simp only [List.mem_cons, List.not_mem_nil, or_false, hbyte]
        omega

theorem newlineByte_mem {cs : List Char} : newlineByte ∈ utf8Bytes cs <-> '\n' ∈ cs := by
  induction cs with
  | nil => simp
  | cons c cs ih =>
      rw [utf8Bytes_cons, List.mem_append, newlineByte_mem_char, ih, List.mem_cons, eq_comm]

/-!
# Joining lines
-/

def joinLines (lines : List (List Char)) : List Char :=
  lines.flatMap (· ++ ['\n'])

theorem joinLines_cons (text : List Char) (lines : List (List Char)) :
    joinLines (text :: lines) = text ++ '\n' :: joinLines lines := by
  simp [joinLines]

theorem joinLines_append (xs ys : List (List Char)) :
    joinLines (xs ++ ys) = joinLines xs ++ joinLines ys :=
  List.flatMap_append

theorem utf8Width_joinLines (lines : List (List Char)) :
    utf8Width (joinLines lines) = linesWidth lines := by
  induction lines with
  | nil => rfl
  | cons text lines ih =>
      have hnewline : Char.utf8Size '\n' = 1 := rfl
      rw [joinLines_cons, utf8Width_append, utf8Width_cons, ih, linesWidth_cons, hnewline]
      omega

theorem joinLines_splitLines (cs : List Char) : joinLines (splitLines cs) = cs ++ ['\n'] := by
  induction cs with
  | nil => rfl
  | cons c cs ih =>
      by_cases hc : c = '\n'
      · subst hc
        have hsplit : splitLines ('\n' :: cs) = [] :: splitLines cs := Text.cutAt_mark '\n' cs
        rw [hsplit, joinLines_cons, ih]
        rfl
      · rcases List.exists_cons_of_ne_nil (splitLines_ne_nil cs) with ⟨here, later, hcs⟩
        rw [hcs, joinLines_cons] at ih
        rw [splitLines_cons hc hcs, joinLines_cons, List.cons_append, ih, List.cons_append]

theorem not_mem_of_mem_splitLines {cs text : List Char} (h : text ∈ splitLines cs) :
    '\n' ∉ text := by
  induction cs generalizing text with
  | nil =>
      rw [List.mem_singleton.mp h]
      exact List.not_mem_nil
  | cons c cs ih =>
      by_cases hc : c = '\n'
      · subst hc
        rcases List.mem_cons.mp h with h | h
        · rw [h]
          exact List.not_mem_nil
        · exact ih h
      · rcases List.exists_cons_of_ne_nil (splitLines_ne_nil cs) with ⟨here, later, hcs⟩
        rw [hcs] at ih
        rw [splitLines_cons hc hcs] at h
        rcases List.mem_cons.mp h with h | h
        · rw [h, List.mem_cons]
          intro hmem
          rcases hmem with hmem | hmem
          · exact hc hmem.symm
          · exact ih List.mem_cons_self hmem
        · exact ih (List.mem_cons_of_mem _ h)

theorem exists_line {lines : List (List Char)} {offset : Nat} (h : offset < linesWidth lines) :
    exists earlier text later column, lines = earlier ++ text :: later ∧
      offset = linesWidth earlier + column ∧ column ≤ utf8Width text := by
  induction lines generalizing offset with
  | nil => exact absurd h (Nat.not_lt_zero offset)
  | cons text lines ih =>
      by_cases hhere : offset ≤ utf8Width text
      · exact ⟨[], text, lines, offset, rfl, (Nat.zero_add offset).symm, hhere⟩
      · rw [linesWidth_cons] at h
        have hbehind : offset - (utf8Width text + 1) < linesWidth lines := by omega
        rcases ih hbehind with ⟨earlier, text', later, column, hlines, hoffset, hcolumn⟩
        refine ⟨text :: earlier, text', later, column, congrArg (text :: ·) hlines, ?_, hcolumn⟩
        rw [linesWidth_cons]
        omega

/-!
# The position behind some bytes
-/

/-- The position behind bytes: the newlines among them give the line, and the bytes behind
the last newline the column. -/
def Pos.behind (bytes : List UInt8) : Pos where
  line := 1 + bytes.count newlineByte
  column := 1 + (bytes.reverse.takeWhile (· ≠ newlineByte)).length

theorem Pos.behind_append {bytes more : List UInt8} (hmore : newlineByte ∉ more) :
    Pos.behind (bytes ++ more) =
      { line := (Pos.behind bytes).line, column := (Pos.behind bytes).column + more.length } := by
  have hall : forall b, b ∈ more.reverse -> decide (b ≠ newlineByte) = true := by
    intro b hb
    simp only [decide_eq_true_eq]
    intro hnewline
    rw [hnewline] at hb
    exact hmore (List.mem_reverse.mp hb)
  have hcount : more.count newlineByte = 0 := List.count_eq_zero.mpr hmore
  simp only [Pos.behind, List.count_append, hcount, List.reverse_append,
    List.takeWhile_append_of_pos hall, List.length_append, List.length_reverse]
  congr 1
  omega

theorem Pos.behind_newline (bytes : List UInt8) :
    Pos.behind (bytes ++ [newlineByte]) =
      { line := (Pos.behind bytes).line + 1, column := 1 } := by
  simp [Pos.behind, Nat.add_assoc]

theorem Pos.line_behind_lt (bytes : List UInt8) {more : List UInt8} (hmore : newlineByte ∈ more) :
    (Pos.behind bytes).line < (Pos.behind (bytes ++ more)).line := by
  have hcount : 0 < more.count newlineByte := List.count_pos_iff.mpr hmore
  simp only [Pos.behind, List.count_append]
  omega

theorem Pos.before_behind {bytes more : List UInt8} (hmore : more ≠ []) :
    (Pos.behind bytes).before (Pos.behind (bytes ++ more)) = true := by
  have hlength : 0 < more.length := List.length_pos_iff.mpr hmore
  by_cases hnewline : newlineByte ∈ more
  · have hline := Pos.line_behind_lt bytes hnewline
    simp [Pos.before, hline]
  · rw [Pos.behind_append hnewline]
    simp [Pos.before, hlength]

theorem Pos.line_behind_le (bytes : List UInt8) : (Pos.behind bytes).line ≤ bytes.length + 1 := by
  have hle := List.count_le_length (a := newlineByte) (l := bytes)
  simp only [Pos.behind]
  omega

theorem Pos.column_behind_le (bytes : List UInt8) :
    (Pos.behind bytes).column ≤ bytes.length + 1 := by
  have hle := (List.takeWhile_sublist (fun b => decide (b ≠ newlineByte))
    (l := bytes.reverse)).length_le
  rw [List.length_reverse] at hle
  simp only [Pos.behind]
  omega

theorem Pos.behind_joinLines {lines : List (List Char)}
    (hlines : forall text, text ∈ lines -> '\n' ∉ text) :
    Pos.behind (utf8Bytes (joinLines lines)) = { line := 1 + lines.length, column := 1 } := by
  induction lines using List.reverseRecOn with
  | nil => rfl
  | append_singleton lines text ih =>
      have htext : newlineByte ∉ utf8Bytes text := by
        rw [newlineByte_mem]
        exact hlines text (List.mem_append_right _ (List.mem_singleton_self text))
      have hbytes : utf8Bytes (joinLines (lines ++ [text])) =
          utf8Bytes (joinLines lines) ++ utf8Bytes text ++ [newlineByte] := by
        rw [joinLines_append, joinLines_cons, utf8Bytes_append, utf8Bytes_append,
          List.append_assoc]
        rfl
      have ih := ih fun text' htext' => hlines text' (List.mem_append_left _ htext')
      rw [hbytes, Pos.behind_newline, Pos.behind_append htext, ih, List.length_append]
      rfl

/-!
# Offsets and their positions
-/

def sourceBytes (source : String) : List UInt8 :=
  source.toUTF8.data.toList

theorem sourceBytes_eq (source : String) : sourceBytes source = utf8Bytes source.toList := by
  have hbytes : source.toUTF8 = source.toList.utf8Encode := String.utf8Encode_toList.symm
  rw [sourceBytes, hbytes, List.utf8Encode, List.data_toByteArray, utf8Bytes]

theorem length_sourceBytes (source : String) :
    (sourceBytes source).length = utf8Width source.toList := by
  rw [sourceBytes_eq, length_utf8Bytes]

namespace LineMap

/-- Where an offset lies: on which line, and how far behind the start of the line. -/
structure LiesAt (source : String) (offset : Nat) (earlier : List (List Char))
    (text : List Char) (later : List (List Char)) (column : Nat) : Prop where
  lines : (ofSource source).lines = earlier ++ text :: later
  offset : offset = linesWidth earlier + column
  column : column ≤ utf8Width text

section

variable {source : String} {offset column : Nat} {earlier later : List (List Char)}
  {text : List Char}

theorem exists_liesAt (h : offset ≤ (sourceBytes source).length) :
    exists earlier text later column, LiesAt source offset earlier text later column := by
  have hwidth : linesWidth (splitLines source.toList) = utf8Width source.toList + 1 := by
    rw [← utf8Width_joinLines, joinLines_splitLines, utf8Width_append]
    rfl
  rw [length_sourceBytes] at h
  have hlt : offset < linesWidth (splitLines source.toList) := by omega
  rcases exists_line hlt with ⟨earlier, text, later, column, hlines, hoffset, hcolumn⟩
  exact ⟨earlier, text, later, column, hlines, hoffset, hcolumn⟩

theorem LiesAt.joined (h : LiesAt source offset earlier text later column) :
    source.toList ++ ['\n'] = joinLines earlier ++ (text ++ '\n' :: joinLines later) := by
  rw [← joinLines_splitLines, ← joinLines_cons, ← joinLines_append]
  exact congrArg joinLines h.lines

theorem LiesAt.not_mem (h : LiesAt source offset earlier text later column) :
    forall line, line ∈ earlier ++ text :: later -> '\n' ∉ line := by
  intro line hline
  rw [← h.lines] at hline
  exact not_mem_of_mem_splitLines hline

theorem LiesAt.pos (h : LiesAt source offset earlier text later column) :
    (ofSource source).pos offset =
      { line := word (1 + earlier.length), column := word (column + 1) } := by
  rw [LineMap.pos, h.lines, h.offset]
  exact posFrom_behind 1 earlier later h.column

theorem LiesAt.bytes (h : LiesAt source offset earlier text later column)
    (hle : offset ≤ (sourceBytes source).length) :
    (sourceBytes source).take offset =
      utf8Bytes (joinLines earlier) ++ (utf8Bytes text).take column := by
  have hjoined := congrArg utf8Bytes h.joined
  rw [utf8Bytes_append, utf8Bytes_append, utf8Bytes_append, ← sourceBytes_eq] at hjoined
  have hearlier : (utf8Bytes (joinLines earlier)).length = linesWidth earlier := by
    rw [length_utf8Bytes, utf8Width_joinLines]
  have hcolumn : column ≤ (utf8Bytes text).length := by
    rw [length_utf8Bytes]
    exact h.column
  calc (sourceBytes source).take offset
      = (sourceBytes source ++ utf8Bytes ['\n']).take offset :=
        (List.take_append_of_le_length hle).symm
    _ = (utf8Bytes (joinLines earlier) ++
          (utf8Bytes text ++ utf8Bytes ('\n' :: joinLines later))).take offset := by rw [hjoined]
    _ = utf8Bytes (joinLines earlier) ++ (utf8Bytes text).take column := by
        rw [h.offset, ← hearlier, List.take_length_add_append,
          List.take_append_of_le_length hcolumn]

theorem LiesAt.behind (h : LiesAt source offset earlier text later column)
    (hle : offset ≤ (sourceBytes source).length) :
    Pos.behind ((sourceBytes source).take offset) =
      { line := 1 + earlier.length, column := 1 + column } := by
  have hlines := h.not_mem
  have hearlier : forall line, line ∈ earlier -> '\n' ∉ line :=
    fun line hline => hlines line (List.mem_append_left _ hline)
  have htext : newlineByte ∉ (utf8Bytes text).take column := by
    intro hmem
    have hnewline := newlineByte_mem.mp (List.mem_of_mem_take hmem)
    exact hlines text (List.mem_append_right _ List.mem_cons_self) hnewline
  have hlength : ((utf8Bytes text).take column).length = column := by
    rw [List.length_take, length_utf8Bytes]
    exact Nat.min_eq_left h.column
  rw [h.bytes hle, Pos.behind_append htext, Pos.behind_joinLines hearlier, hlength]

/-- A line map finds the position behind the bytes before an offset, in words of 32 bits. -/
theorem pos_eq_words (h : offset ≤ (sourceBytes source).length) :
    (ofSource source).pos offset =
      { line := word (Pos.behind ((sourceBytes source).take offset)).line
        column := word (Pos.behind ((sourceBytes source).take offset)).column } := by
  rcases exists_liesAt h with ⟨earlier, text, later, column, hlies⟩
  rw [hlies.behind h, hlies.pos, Nat.add_comm column 1]

theorem word_of_lt {n : Nat} (h : n < 4294967296) : word n = n :=
  Nat.mod_eq_of_lt h

theorem pos_eq_behind (h : offset ≤ (sourceBytes source).length) (hword : offset + 1 < 4294967296) :
    (ofSource source).pos offset = Pos.behind ((sourceBytes source).take offset) := by
  have hline := Pos.line_behind_le ((sourceBytes source).take offset)
  have hcolumn := Pos.column_behind_le ((sourceBytes source).take offset)
  rw [List.length_take, Nat.min_eq_left h] at hline hcolumn
  rw [pos_eq_words h, word_of_lt (Nat.lt_of_le_of_lt hline hword),
    word_of_lt (Nat.lt_of_le_of_lt hcolumn hword)]

/-- An offset is found again from its position. -/
theorem offset?_pos (h : offset ≤ (sourceBytes source).length) (hword : offset + 1 < 4294967296) :
    (ofSource source).offset? ((ofSource source).pos offset) = some offset := by
  rcases exists_liesAt h with ⟨earlier, text, later, column, hlies⟩
  rw [pos_eq_behind h hword, hlies.behind h, Nat.add_comm 1, Nat.add_comm 1]
  simp only [offset?, hlies.lines, List.drop_left, List.take_left, if_pos hlies.column,
    hlies.offset]

end

end LineMap
end Scriptlet
