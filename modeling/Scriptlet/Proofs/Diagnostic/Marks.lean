import Mathlib.Data.List.SplitBy
import Scriptlet.Proofs.Diagnostic.LabeledLines

/-!
# Marks below a line

The marks below a line are counted in places, one for each character that is printed above
them.  A label is drawn as many places to the right as bytes stand before it on its line, and
below as many characters as its word or run of operator characters has.  So the marks sit below
what they mark if each character before a label takes one byte, and else as many places too far
to the right as these characters take bytes beyond the first.
-/

namespace Scriptlet
namespace Terminal

open Text (padLeft spaces)

/-!
# Runs
-/

/-- A place lies in the run at the front: at its start, or behind it as long as all characters
up to there belong to a word, or all are operator characters. -/
def InRun (cs : List Char) (place : Nat) : Prop :=
  place = 0 ∨ place < cs.length ∧
    ((forall c, c ∈ cs.take (place + 1) -> isWordChar c = true) ∨
      forall c, c ∈ cs.take (place + 1) -> isOperatorChar c = true)

theorem lt_length_takeWhile {p : Char -> Bool} {cs : List Char} {place : Nat} :
    place < (cs.takeWhile p).length <->
      place < cs.length ∧ forall c, c ∈ cs.take (place + 1) -> p c = true := by
  induction cs generalizing place with
  | nil => simp
  | cons c cs ih =>
      rw [List.takeWhile_cons, List.take_succ_cons, List.forall_mem_cons]
      cases hc : p c with
      | false => simp
      | true =>
          cases place with
          | zero => simp
          | succ place => simp [ih]

theorem lt_runWidth {cs : List Char} {place : Nat} : place < runWidth cs <-> InRun cs place := by
  cases cs with
  | nil => simp [runWidth, InRun]
  | cons c cs =>
      have hfirst : c ∈ (c :: cs).take (place + 1) := by simp
      cases hword : isWordChar c with
      | true =>
          have hnot : isOperatorChar c ≠ true := by simp [isOperatorChar, hword]
          rw [runWidth, if_pos hword, lt_length_takeWhile]
          constructor
          · rintro ⟨hlt, hall⟩
            exact .inr ⟨hlt, .inl hall⟩
          · rintro (rfl | ⟨hlt, hall | hall⟩)
            · simpa using hword
            · exact ⟨hlt, hall⟩
            · exact absurd (hall c hfirst) hnot
      | false =>
          have hnot : isWordChar c ≠ true := by simp [hword]
          cases hoperator : isOperatorChar c with
          | true =>
              rw [runWidth, if_neg hnot, if_pos hoperator, lt_length_takeWhile]
              constructor
              · rintro ⟨hlt, hall⟩
                exact .inr ⟨hlt, .inr hall⟩
              · rintro (rfl | ⟨hlt, hall | hall⟩)
                · simpa using hoperator
                · exact absurd (hall c hfirst) hnot
                · exact ⟨hlt, hall⟩
          | false =>
              have hblank : isOperatorChar c ≠ true := by simp [hoperator]
              rw [runWidth, if_neg hnot, if_neg hblank]
              constructor
              · exact fun hlt => .inl (by omega)
              · rintro (rfl | ⟨_, hall | hall⟩)
                · exact Nat.zero_lt_one
                · exact absurd (hall c hfirst) hnot
                · exact absurd (hall c hfirst) hblank

theorem dropBytes_utf8Width (left right : List Char) :
    dropBytes (utf8Width left) (left ++ right) = right := by
  induction left with
  | nil => cases right <;> rfl
  | cons c left ih =>
      have hpos := c.utf8Size_pos
      rcases Nat.exists_eq_add_of_lt hpos with ⟨n, hn⟩
      have hwidth : utf8Width (c :: left) = n + utf8Width left + 1 := by
        rw [utf8Width_cons]
        omega
      have hrest : n + utf8Width left + 1 - c.utf8Size = utf8Width left := by omega
      rw [hwidth, List.cons_append, dropBytes, if_pos (by omega), hrest, ih]

theorem markWidth_behind (left right : List Char) :
    markWidth (String.ofList (left ++ right)) (utf8Width left + 1) = runWidth right := by
  rw [markWidth, Nat.add_sub_cancel, String.toList_ofList, dropBytes_utf8Width]

/-!
# Labels that reach a place
-/

def Reaches (width : List Char -> Nat) (map : LineMap) (labels : List Label) (role : LabelRole)
    (line place : Nat) : Prop :=
  exists label left right further, label ∈ labels ∧ label.role = role ∧
    PointsAt map label.pos line left right ∧ InRun right further ∧ place = width left + further

def AllPoint (map : LineMap) (labels : List Label) : Prop :=
  forall label, label ∈ labels -> exists line left right, PointsAt map label.pos line left right

section

variable {map : LineMap} {labels : List Label}

theorem covers_placed {l : Location} {label : Label} {left right : List Char} {place : Nat}
    (htext : l.text = String.ofList (left ++ right)) (hcolumn : l.column = utf8Width left + 1) :
    covers place (placed l label) = true <->
      exists further, InRun right further ∧ place = utf8Width left + further := by
  have hcovers : covers place (placed l label) = true <->
      utf8Width left ≤ place ∧ place < utf8Width left + runWidth right := by
    simp only [covers, placed, htext, hcolumn, markWidth_behind, Bool.and_eq_true,
      decide_eq_true_eq]
    omega
  rw [hcovers]
  constructor
  · rintro ⟨hlow, hhigh⟩
    exact ⟨place - utf8Width left, lt_runWidth.mp (by omega), by omega⟩
  · rintro ⟨further, hrun, rfl⟩
    have hlt := lt_runWidth.mpr hrun
    omega

theorem reaches_iff (hpoint : AllPoint map labels) {role : LabelRole} {line place : Nat} :
    Reaches utf8Width map labels role line place <->
      exists label a, label ∈ labels ∧ PlacedOn map label line a ∧ a.role = role ∧
        covers place a = true := by
  constructor
  · rintro ⟨label, left, right, further, hlabel, hrole, hat, hrun, hplace⟩
    exact ⟨label, _, hlabel, .located hat.locate?, hrole,
      (covers_placed rfl rfl).mpr ⟨further, hrun, hplace⟩⟩
  · rintro ⟨label, a, hlabel, ⟨hlocate⟩, hrole, hcovers⟩
    rcases hpoint label hlabel with ⟨line', left, right, hat⟩
    have hsame := hat.locate?
    rw [hlocate] at hsame
    cases hsame
    rcases (covers_placed rfl rfl).mp hcovers with ⟨further, hrun, hplace⟩
    exact ⟨label, left, right, further, hlabel, hrole, hat, hrun, hplace⟩

end

/-!
# Painting
-/

theorem le_foldl_max (ns : List Nat) (start : Nat) :
    start ≤ ns.foldl max start ∧ forall n, n ∈ ns -> n ≤ ns.foldl max start := by
  induction ns generalizing start with
  | nil => simp
  | cons n ns ih =>
      rcases ih (max start n) with ⟨hstart, hrest⟩
      rw [List.foldl_cons, List.forall_mem_cons]
      exact ⟨by omega, by omega, hrest⟩

section

variable {labels : List PlacedLabel} {place : Nat}

theorem underline_getD (labels : List PlacedLabel) (place : Nat) :
    (underline labels).getD place ' ' = markAt (labels.mergeSort inPaintOrder) place := by
  rw [underline, List.getD_eq_getElem?_getD, List.getElem?_map]
  by_cases hlt : place < (labels.map fun a => a.column + a.width - 1).foldl max 0
  · rw [List.getElem?_range hlt]
    rfl
  · have hnone : (labels.mergeSort inPaintOrder).find? (covers place) = none := by
      refine List.find?_eq_none.mpr ?_
      intro a ha hcovers
      have hle := (le_foldl_max (labels.map fun a => a.column + a.width - 1) 0).2 _
        (List.mem_map_of_mem (List.mem_mergeSort.mp ha))
      simp only [covers, Bool.and_eq_true, decide_eq_true_eq] at hcovers
      omega
    rw [List.getElem?_eq_none (by simpa using hlt), markAt, hnone]
    rfl

theorem inPaintOrder_trans (a b c : PlacedLabel) (hab : inPaintOrder a b = true)
    (hbc : inPaintOrder b c = true) : inPaintOrder a c = true := by
  cases ha : a.role <;> cases hb : b.role <;> cases hc : c.role <;>
    simp_all [inPaintOrder, rolePriority] <;> omega

theorem inPaintOrder_total (a b : PlacedLabel) :
    (inPaintOrder a b || inPaintOrder b a) = true := by
  cases ha : a.role <;> cases hb : b.role <;> simp [inPaintOrder, rolePriority, ha, hb] <;> omega

/-- The label that paints a place is one that covers it, and none that covers it has a role
painted before its own. -/
theorem find?_covers {a : PlacedLabel}
    (h : (labels.mergeSort inPaintOrder).find? (covers place) = some a) :
    a ∈ labels ∧ covers place a = true ∧
      forall b, b ∈ labels -> covers place b = true ->
        rolePriority a.role ≤ rolePriority b.role := by
  rcases List.find?_eq_some_iff_append.mp h with ⟨hcovers, before, behind, hsorted, hbefore⟩
  have hpairwise := List.pairwise_mergeSort inPaintOrder_trans inPaintOrder_total labels
  rw [hsorted] at hpairwise
  have hmem : forall b, b ∈ labels <-> b ∈ before ++ a :: behind := by
    intro b
    rw [← hsorted, List.mem_mergeSort]
  refine ⟨(hmem a).mpr (by simp), hcovers, ?_⟩
  intro b hb hcoversB
  rcases List.mem_append.mp ((hmem b).mp hb) with hearlier | hlater
  · have hnot := hbefore b hearlier
    rw [hcoversB] at hnot
    cases hnot
  · rcases List.mem_cons.mp hlater with rfl | hlater
    · exact Nat.le_refl _
    · have horder := List.rel_of_pairwise_cons (List.pairwise_append.mp hpairwise).2.1 hlater
      cases ha : a.role <;> cases hb : b.role <;> simp_all [inPaintOrder, rolePriority]

def Covered (labels : List PlacedLabel) (role : LabelRole) (place : Nat) : Prop :=
  exists a, a ∈ labels ∧ a.role = role ∧ covers place a = true

theorem not_covered (h : (labels.mergeSort inPaintOrder).find? (covers place) = none)
    (role : LabelRole) : ¬ Covered labels role place := by
  rintro ⟨a, ha, _, hcovers⟩
  exact List.find?_eq_none.mp h a (List.mem_mergeSort.mpr ha) hcovers

theorem underline_of_primary (h : Covered labels .primary place) :
    (underline labels).getD place ' ' = '^' := by
  rw [underline_getD, markAt]
  cases hfind : (labels.mergeSort inPaintOrder).find? (covers place) with
  | none => exact absurd h (not_covered hfind .primary)
  | some a =>
      rcases h with ⟨b, hb, hrole, hcovers⟩
      have hfirst := (find?_covers hfind).2.2 b hb hcovers
      cases ha : a.role with
      | primary => simp [markOf, ha]
      | secondary => simp [rolePriority, ha, hrole] at hfirst

theorem underline_of_secondary (hnot : ¬ Covered labels .primary place)
    (h : Covered labels .secondary place) : (underline labels).getD place ' ' = '-' := by
  rw [underline_getD, markAt]
  cases hfind : (labels.mergeSort inPaintOrder).find? (covers place) with
  | none => exact absurd h (not_covered hfind .secondary)
  | some a =>
      rcases find?_covers hfind with ⟨hmem, hcoversA, _⟩
      cases ha : a.role with
      | primary => exact absurd ⟨a, hmem, ha, hcoversA⟩ hnot
      | secondary => simp [markOf, ha]

theorem underline_of_none (hprimary : ¬ Covered labels .primary place)
    (hsecondary : ¬ Covered labels .secondary place) :
    (underline labels).getD place ' ' = ' ' := by
  rw [underline_getD, markAt]
  cases hfind : (labels.mergeSort inPaintOrder).find? (covers place) with
  | none => rfl
  | some a =>
      rcases find?_covers hfind with ⟨hmem, hcoversA, _⟩
      cases ha : a.role with
      | primary => exact absurd ⟨a, hmem, ha, hcoversA⟩ hprimary
      | secondary => exact absurd ⟨a, hmem, ha, hcoversA⟩ hsecondary

end

/-!
# The printed block of a line
-/

theorem length_toString_mono {n m : Nat} (h : n ≤ m) :
    (toString n).length ≤ (toString m).length := by
  have hlength : forall k : Nat, (toString k).length = (Nat.toDigits 10 k).length := fun k =>
    String.length_ofList
  rw [hlength, hlength]
  have hm := (Nat.length_toDigits_le_iff (b := 10) (by decide) Nat.length_toDigits_pos).mp
    (Nat.le_refl (Nat.toDigits 10 m).length)
  exact (Nat.length_toDigits_le_iff (by decide) Nat.length_toDigits_pos).mpr
    (Nat.lt_of_le_of_lt h hm)

theorem length_padLeft {width : Nat} {text : String} (h : text.length ≤ width) :
    (padLeft width text).length = width := by
  rw [padLeft, String.length_append, spaces, String.length_ofList, List.length_replicate]
  omega

theorem paintMarks_off (marks : List Char) : paintMarks false marks = String.ofList marks := by
  have hruns : forall runs : List (List Char),
      String.join (runs.map fun run =>
        (markStyle (run.headD ' ')).paint false (String.ofList run)) =
          String.ofList runs.flatten := by
    intro runs
    induction runs with
    | nil => rfl
    | cons run runs ih =>
        rw [List.map_cons, String.join_cons, ih, Text.Style.paint_off, List.flatten_cons,
          String.ofList_append]
  rw [paintMarks, hruns, List.flatten_splitBy]

/-- What is printed for a line: its text behind its number, and below it the marks behind a
margin that is as wide as the number. -/
inductive Block (l : LabeledLine) : String -> Prop where
  | marked {number rest : String} :
      Block l (number ++ " | " ++ l.text ++ "\n" ++ spaces number.length ++ " | " ++
        String.ofList (underline l.labels) ++ rest)

theorem labelText_off (margin : String) (labels : List PlacedLabel) :
    exists rest, labelText false margin labels =
      margin ++ " | " ++ String.ofList (underline labels) ++ rest := by
  have hmargin : margin ++ " " ++ bar false ++ " " = margin ++ " | " := by
    rw [bar, Text.Style.paint_off, String.append_assoc, String.append_assoc]
    rfl
  rw [labelText, hmargin, paintMarks_off]
  split
  · exact ⟨_, rfl⟩
  · exact ⟨_, by rw [String.append_assoc, String.append_assoc]⟩
  · exact ⟨_, by rw [String.append_assoc]⟩

theorem block_lineText {gutter : Nat} {l : LabeledLine}
    (hwidth : (toString l.line).length ≤ gutter + 1) : Block l (lineText false gutter l) := by
  rcases labelText_off (spaces (gutter + 1)) l.labels with ⟨rest, hrest⟩
  have hnumber := length_padLeft hwidth
  have hblock : lineText false gutter l =
      padLeft (gutter + 1) (toString l.line) ++ " | " ++ l.text ++ "\n" ++
        spaces (padLeft (gutter + 1) (toString l.line)).length ++ " | " ++
          String.ofList (underline l.labels) ++ rest := by
    rw [hnumber, lineText, hrest, bar, Text.Style.paint_off, Text.Style.paint_off]
    simp only [String.append_assoc]
    rfl
  rw [hblock]
  exact .marked

theorem block_linesText {gutter : Nat} {lines : List LabeledLine} {l : LabeledLine}
    (hl : l ∈ lines) (hwidth : (toString l.line).length ≤ gutter + 1) (previous : Option Nat) :
    exists before block behind, Block l block ∧
      linesText false gutter previous lines = before ++ block ++ behind := by
  induction lines generalizing previous with
  | nil => cases hl
  | cons first rest ih =>
      simp only [linesText]
      rcases List.mem_cons.mp hl with rfl | hrest
      · exact ⟨_, _, _, block_lineText hwidth, rfl⟩
      · rcases ih hrest (some first.line) with ⟨before, block, behind, hblock, htext⟩
        rw [htext, ← String.append_assoc, ← String.append_assoc]
        exact ⟨_, _, _, hblock, rfl⟩

theorem length_line_le {lines : List LabeledLine} (h : lines.Pairwise (·.line < ·.line))
    {l : LabeledLine} (hl : l ∈ lines) : (toString l.line).length ≤ gutterWidth lines + 1 := by
  rcases List.eq_nil_or_concat' lines with rfl | ⟨front, last, rfl⟩
  · cases hl
  · have hle : l.line ≤ last.line := by
      rcases List.mem_append.mp hl with hfront | hlast
      · exact Nat.le_of_lt
          ((List.pairwise_append.mp h).2.2 l hfront last (List.mem_singleton_self last))
      · rw [List.mem_singleton.mp hlast]
    have hdigits := length_toString_mono hle
    rw [gutterWidth, List.getLast?_concat]
    simp only [Option.map_some, Option.getD_some]
    omega

section

variable {source : String} {file : Option String} {d : Diagnostic}

theorem format_lines (file : Option String) (hpoint : AllPoint (.ofSource source) d.labels)
    {l : LabeledLine} (hl : l ∈ labeledLines (.ofSource source) d.labels) :
    exists before behind, format false source file d =
      before ++ linesText false (gutterWidth (labeledLines (.ofSource source) d.labels)) none
        (labeledLines (.ofSource source) d.labels) ++ behind := by
  have hmain : exists label, d.mainLabel? = some label ∧ label ∈ d.labels := by
    rw [Diagnostic.mainLabel?]
    cases hlabels : d.labels with
    | nil =>
        rw [hlabels] at hl
        cases hl
    | cons first rest =>
        cases hfind : (first :: rest).find? (·.role == .primary) with
        | none => exact ⟨first, rfl, List.mem_cons_self⟩
        | some label => exact ⟨label, rfl, List.mem_of_find?_eq_some hfind⟩
  rcases hmain with ⟨label, hlabel, hmem⟩
  rcases hpoint label hmem with ⟨line, left, right, hat⟩
  have hplace : d.pos?.bind (LineMap.ofSource source).locate? = some
      { line := line, column := utf8Width left + 1, text := String.ofList (left ++ right) } := by
    rw [Diagnostic.pos?, hlabel]
    exact hat.locate?
  rcases List.exists_cons_of_ne_nil (List.ne_nil_of_mem hl) with ⟨first, rest, hlines⟩
  simp only [format, hplace, hlines]
  exact ⟨_, _, String.append_assoc⟩

/-!
# Diagnostics with their marks
-/

/-- The lines of a diagnostic are marked: each line to which a label points is printed once,
with the marks of the labels that reach its places below it, and a primary label is painted
over a secondary one. -/
structure Marked (width : List Char -> Nat) (source : String) (file : Option String)
    (d : Diagnostic) : Prop where
  increasing : (labeledLines (.ofSource source) d.labels).Pairwise (·.line < ·.line)
  shown : forall line, (exists l, l ∈ labeledLines (.ofSource source) d.labels ∧ l.line = line) <->
    exists label left right, label ∈ d.labels ∧
      PointsAt (.ofSource source) label.pos line left right
  text : forall l, l ∈ labeledLines (.ofSource source) d.labels ->
    (LineMap.ofSource source).lineText l.line = some l.text
  printed : forall l, l ∈ labeledLines (.ofSource source) d.labels ->
    exists before block behind, Block l block ∧
      format false source file d = before ++ block ++ behind
  primary : forall l, l ∈ labeledLines (.ofSource source) d.labels -> forall place,
    Reaches width (.ofSource source) d.labels .primary l.line place ->
      (underline l.labels).getD place ' ' = '^'
  secondary : forall l, l ∈ labeledLines (.ofSource source) d.labels -> forall place,
    ¬ Reaches width (.ofSource source) d.labels .primary l.line place ->
      Reaches width (.ofSource source) d.labels .secondary l.line place ->
        (underline l.labels).getD place ' ' = '-'
  blank : forall l, l ∈ labeledLines (.ofSource source) d.labels -> forall place,
    ¬ Reaches width (.ofSource source) d.labels .primary l.line place ->
      ¬ Reaches width (.ofSource source) d.labels .secondary l.line place ->
        (underline l.labels).getD place ' ' = ' '

/-- A line carries a label of each number that has one, and only of these. -/
theorem shown_iff (hpoint : AllPoint (.ofSource source) d.labels) {line : Nat} :
    (exists l, l ∈ labeledLines (.ofSource source) d.labels ∧ l.line = line) <->
      exists label left right, label ∈ d.labels ∧
        PointsAt (.ofSource source) label.pos line left right := by
  have hdistributed := distributed_labeledLines (.ofSource source) d.labels
  constructor
  · rintro ⟨l, hl, rfl⟩
    rcases List.exists_mem_of_ne_nil _ (hdistributed.used l hl) with ⟨a, ha⟩
    rcases (hdistributed.mem_labels hl a).mp ha with ⟨label, hlabel, hplaced⟩
    rcases hpoint label hlabel with ⟨line', left, right, hat⟩
    rw [hplaced.line_eq hat]
    exact ⟨label, left, right, hlabel, hat⟩
  · rintro ⟨label, left, right, hlabel, hat⟩
    rcases (hdistributed.carried _ _).mpr ⟨label, hlabel, .located hat.locate?⟩ with
      ⟨l, hl, hline, _⟩
    exact ⟨l, hl, hline⟩

/-- Marks are drawn as far to the right as bytes stand before them. -/
theorem marked_behind_bytes (hpoint : AllPoint (.ofSource source) d.labels) :
    Marked utf8Width source file d := by
  have hdistributed := distributed_labeledLines (.ofSource source) d.labels
  have hcovered : forall l, l ∈ labeledLines (.ofSource source) d.labels -> forall role place,
      Covered l.labels role place <->
        Reaches utf8Width (.ofSource source) d.labels role l.line place := by
    intro l hl role place
    rw [reaches_iff hpoint]
    constructor
    · rintro ⟨a, ha, hrole, hcovers⟩
      rcases (hdistributed.mem_labels hl a).mp ha with ⟨label, hlabel, hplaced⟩
      exact ⟨label, a, hlabel, hplaced, hrole, hcovers⟩
    · rintro ⟨label, a, hlabel, hplaced, hrole, hcovers⟩
      exact ⟨a, (hdistributed.mem_labels hl a).mpr ⟨label, hlabel, hplaced⟩, hrole, hcovers⟩
  refine ⟨hdistributed.increasing, fun _ => shown_iff hpoint, hdistributed.text, ?_, ?_, ?_, ?_⟩
  · intro l hl
    rcases format_lines file hpoint hl with ⟨front, rest, hformat⟩
    rcases block_linesText hl (length_line_le hdistributed.increasing hl) none with
      ⟨before, block, behind, hblock, hlines⟩
    refine ⟨front ++ before, block, behind ++ rest, hblock, ?_⟩
    rw [hformat, hlines]
    simp only [String.append_assoc]
  · intro l hl place hprimary
    exact underline_of_primary ((hcovered l hl _ _).mpr hprimary)
  · intro l hl place hprimary hsecondary
    exact underline_of_secondary (mt (hcovered l hl _ _).mp hprimary)
      ((hcovered l hl _ _).mpr hsecondary)
  · intro l hl place hprimary hsecondary
    exact underline_of_none (mt (hcovered l hl _ _).mp hprimary)
      (mt (hcovered l hl _ _).mp hsecondary)

/-- The second of two accented letters is marked one place behind the end of its line. -/
example : (labeledLines (.ofSource "é ß") [⟨⟨1, 4⟩, .primary, none⟩]).map
    (fun l => (l.text, String.ofList (underline l.labels))) = [("é ß", "   ^")] := by
  cbv

def SingleBytesBefore (map : LineMap) (labels : List Label) : Prop :=
  forall label line left right, label ∈ labels -> PointsAt map label.pos line left right ->
    forall c, c ∈ left -> c.utf8Size = 1

/-- Behind characters of one byte the marks stand below the characters that they mark. -/
theorem marked_below_characters (hpoint : AllPoint (.ofSource source) d.labels)
    (hbytes : SingleBytesBefore (.ofSource source) d.labels) :
    Marked List.length source file d := by
  have hsame : forall role line place,
      Reaches List.length (.ofSource source) d.labels role line place <->
        Reaches utf8Width (.ofSource source) d.labels role line place := by
    intro role line place
    constructor
    all_goals
      rintro ⟨label, left, right, further, hlabel, hrole, hat, hrun, hplace⟩
      have hwidth := utf8Width_eq_length (hbytes label line left right hlabel hat)
      exact ⟨label, left, right, further, hlabel, hrole, hat, hrun, by omega⟩
  have hmarked : Marked utf8Width source file d := marked_behind_bytes hpoint
  refine ⟨hmarked.increasing, hmarked.shown, hmarked.text, hmarked.printed, ?_, ?_, ?_⟩
  · intro l hl place
    rw [hsame]
    exact hmarked.primary l hl place
  · intro l hl place
    rw [hsame, hsame]
    exact hmarked.secondary l hl place
  · intro l hl place
    rw [hsame, hsame]
    exact hmarked.blank l hl place

end

end Terminal
end Scriptlet
