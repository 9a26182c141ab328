import Mathlib.Data.List.Nodup
import Scriptlet.Diagnostic.Terminal
import Scriptlet.Proofs.Source.LineTexts

/-!
# Lines that carry labels

A diagnostic shows each line to which one of its labels points, once, the lines in order and
each with exactly the labels that point to it.
-/

namespace Scriptlet

theorem utf8Width_toList (text : String) : utf8Width text.toList = text.utf8ByteSize := by
  rw [← length_sourceBytes]
  exact String.size_toByteArray

theorem utf8Width_eq_length {cs : List Char} (h : forall c, c ∈ cs -> c.utf8Size = 1) :
    utf8Width cs = cs.length := by
  induction cs with
  | nil => rfl
  | cons c cs ih =>
      rw [utf8Width_cons, h c List.mem_cons_self, List.length_cons,
        ih fun d hd => h d (List.mem_cons_of_mem _ hd), Nat.add_comm]

/-!
# Positions on their lines
-/

/-- A position points at the text of a line, between the characters on its left and those on
its right: at the first of these, or behind the text if there are none. -/
structure PointsAt (map : LineMap) (pos : Pos) (line : Nat) (left right : List Char) : Prop where
  text : map.lineText line = some (String.ofList (left ++ right))
  place : pos.isEndOfInput = true ∧ line = map.lineCount ∧ right = [] ∨
    pos.line = line ∧ pos.column = utf8Width left + 1

theorem PointsAt.locate? {map : LineMap} {pos : Pos} {line : Nat} {left right : List Char}
    (h : PointsAt map pos line left right) :
    map.locate? pos = some
      { line := line, column := utf8Width left + 1, text := String.ofList (left ++ right) } := by
  rcases h.place with ⟨hend, hlast, hright⟩ | ⟨hline, hcolumn⟩
  · subst hlast hright
    have hwidth := utf8Width_toList (String.ofList (left ++ []))
    rw [String.toList_ofList, List.append_nil] at hwidth
    simp [LineMap.locate?, if_pos hend, LineMap.endLocation?, h.text, hwidth]
  · have hnot : pos.isEndOfInput = false := by
      have htext := h.text
      rw [← hline] at htext
      cases hzero : pos.line with
      | zero =>
          rw [hzero] at htext
          cases htext
      | succ n => simp [Pos.isEndOfInput, hzero]
    simp [LineMap.locate?, hnot, hline, h.text, hcolumn]

namespace LineMap

theorem lineText_of_locate? {map : LineMap} {pos : Pos} {l : Location}
    (h : map.locate? pos = some l) : map.lineText l.line = some l.text := by
  rw [locate?] at h
  split at h <;> rcases Option.map_eq_some_iff.mp h with ⟨text, htext, rfl⟩ <;> exact htext

end LineMap

namespace Terminal

/-!
# Labels on their lines
-/

def placed (l : Location) (label : Label) : PlacedLabel :=
  { column := l.column
    width := markWidth l.text l.column
    role := label.role
    message := label.message }

/-- The label is printed on the line, and this is what is kept of it. -/
inductive PlacedOn (map : LineMap) (label : Label) : Nat -> PlacedLabel -> Prop where
  | located {l : Location} : map.locate? label.pos = some l ->
      PlacedOn map label l.line (placed l label)

theorem PlacedOn.line_eq {map : LineMap} {label : Label} {line line' : Nat} {a : PlacedLabel}
    {left right : List Char} (h : PlacedOn map label line a)
    (hat : PointsAt map label.pos line' left right) : line = line' := by
  cases h with
  | located hlocate =>
      rw [hat.locate?] at hlocate
      cases hlocate
      rfl

def Carries (lines : List LabeledLine) (line : Nat) (a : PlacedLabel) : Prop :=
  exists l, l ∈ lines ∧ l.line = line ∧ a ∈ l.labels

section

variable {l : Location} {a b : PlacedLabel} {lines : List LabeledLine} {line : Nat}

theorem not_carries_nil : ¬ Carries [] line b := by
  simp [Carries]

theorem carries_cons {first : LabeledLine} :
    Carries (first :: lines) line b <->
      first.line = line ∧ b ∈ first.labels ∨ Carries lines line b := by
  simp [Carries]

theorem carries_addLabel :
    Carries (addLabel l a lines) line b <-> Carries lines line b ∨ line = l.line ∧ b = a := by
  induction lines with
  | nil =>
      simp only [addLabel, carries_cons, not_carries_nil, List.mem_singleton]
      grind
  | cons first rest ih =>
      rw [addLabel]
      split
      · simp only [carries_cons, List.mem_singleton]
        grind
      · split
        · simp only [carries_cons, List.mem_append, List.mem_singleton]
          grind
        · rw [carries_cons, carries_cons, ih, or_assoc]

theorem forall_mem_addLabel {P : LabeledLine -> Prop}
    (hnew : P { line := l.line, text := l.text, labels := [a] })
    (hmore : forall x, x.line = l.line -> P x -> P { x with labels := x.labels ++ [a] })
    (h : forall x, x ∈ lines -> P x) : forall x, x ∈ addLabel l a lines -> P x := by
  induction lines with
  | nil =>
      simpa [addLabel] using hnew
  | cons first rest ih =>
      have hfirst := h first List.mem_cons_self
      have hrest : forall x, x ∈ rest -> P x := fun x hx => h x (List.mem_cons_of_mem _ hx)
      rw [addLabel]
      split
      · exact List.forall_mem_cons.mpr ⟨hnew, h⟩
      · split
        · next hline => exact List.forall_mem_cons.mpr ⟨hmore first hline.symm hfirst, hrest⟩
        · exact List.forall_mem_cons.mpr ⟨hfirst, ih hrest⟩

theorem pairwise_addLabel (h : lines.Pairwise (·.line < ·.line)) :
    (addLabel l a lines).Pairwise (·.line < ·.line) := by
  induction lines with
  | nil =>
      simp [addLabel]
  | cons first rest ih =>
      rcases List.pairwise_cons.mp h with ⟨hfirst, hrest⟩
      rw [addLabel]
      split
      · next hlt =>
          refine List.pairwise_cons.mpr ⟨?_, h⟩
          intro x hx
          rcases List.mem_cons.mp hx with rfl | hx
          · exact hlt
          · exact Nat.lt_trans hlt (hfirst x hx)
      · split
        · exact List.pairwise_cons.mpr ⟨hfirst, hrest⟩
        · refine List.pairwise_cons.mpr ⟨?_, ih hrest⟩
          exact forall_mem_addLabel (by simp only; omega) (fun x _ hx => hx) hfirst

end

/-- The labels are distributed over lines in order: each line has its text and carries exactly
the labels that are printed on it. -/
structure Distributed (map : LineMap) (labels : List Label) (lines : List LabeledLine) : Prop where
  increasing : lines.Pairwise (·.line < ·.line)
  text : forall l, l ∈ lines -> map.lineText l.line = some l.text
  used : forall l, l ∈ lines -> l.labels ≠ []
  carried : forall line a,
    Carries lines line a <-> exists label, label ∈ labels ∧ PlacedOn map label line a

section

variable {map : LineMap} {labels : List Label} {lines : List LabeledLine}

theorem Distributed.nil (map : LineMap) : Distributed map [] [] where
  increasing := List.Pairwise.nil
  text := by simp
  used := by simp
  carried := by simp [Carries]

theorem Distributed.concat (h : Distributed map labels lines) (label : Label) :
    Distributed map (labels ++ [label])
      (match map.locate? label.pos with
      | none => lines
      | some l => addLabel l (placed l label) lines) := by
  have hmore : forall line a,
      (exists other, other ∈ labels ++ [label] ∧ PlacedOn map other line a) <->
        Carries lines line a ∨ PlacedOn map label line a := by
    intro line a
    rw [h.carried]
    simp [or_and_right, exists_or]
  cases hlocate : map.locate? label.pos with
  | none =>
      refine ⟨h.increasing, h.text, h.used, ?_⟩
      intro line a
      rw [hmore]
      refine ⟨.inl, fun hor => hor.resolve_right ?_⟩
      intro hplaced
      cases hplaced with
      | located hsome =>
          rw [hlocate] at hsome
          cases hsome
  | some l =>
      refine ⟨pairwise_addLabel h.increasing,
        forall_mem_addLabel (LineMap.lineText_of_locate? hlocate) (fun x _ hx => hx) h.text,
        forall_mem_addLabel (by simp) (by simp) h.used, ?_⟩
      intro line a
      rw [hmore, carries_addLabel]
      refine or_congr_right ⟨?_, ?_⟩
      · rintro ⟨rfl, rfl⟩
        exact .located hlocate
      · intro hplaced
        cases hplaced with
        | located hsome =>
            rw [hlocate] at hsome
            cases hsome
            exact ⟨rfl, rfl⟩

theorem distributed_labeledLines (map : LineMap) (labels : List Label) :
    Distributed map labels (labeledLines map labels) := by
  induction labels using List.reverseRecOn with
  | nil => exact .nil map
  | append_singleton labels label ih =>
      have hstep := ih.concat label
      rw [labeledLines, List.foldl_append]
      exact hstep

theorem Distributed.mem_labels (h : Distributed map labels lines) {l : LabeledLine}
    (hl : l ∈ lines) (a : PlacedLabel) :
    a ∈ l.labels <-> exists label, label ∈ labels ∧ PlacedOn map label l.line a := by
  -- No two lines have one number, so that a line carries all labels of its number.
  have hnumbers : (lines.map (·.line)).Nodup :=
    List.pairwise_map.mpr (h.increasing.imp Nat.ne_of_lt)
  rw [← h.carried]
  refine ⟨fun ha => ⟨l, hl, rfl, ha⟩, ?_⟩
  rintro ⟨other, hother, hline, ha⟩
  rw [← List.inj_on_of_nodup_map hnumbers hother hl hline]
  exact ha

end

end Terminal
end Scriptlet
