import Scriptlet.Proofs.Source.Bytes
import Scriptlet.Proofs.Token.Spelling
import Scriptlet.Token.Lexer

/-!
# What the lexer reads covers the source

The pieces that the lexer reads lie one behind the other: blanks, comments, lexemes and
groups of characters that no rule accepts.  Each stands in the source at the byte offset
that its position denotes.  They reach to the end of the source, or to the group that is
one too many.
-/

namespace Scriptlet

namespace Lexeme

/-!
# Lexemes stand at the front
-/

theorem prefix_fractionOf (cs : List Char) : fractionOf cs <+: cs := by
  cases cs with
  | nil => exact List.prefix_refl []
  | cons c cs =>
      rw [fractionOf]
      split
      · split
        · exact List.nil_prefix
        · exact List.cons_prefix_cons.mpr ⟨rfl, List.takeWhile_prefix isDigit⟩
      · exact List.nil_prefix

theorem prefix_signOf (cs : List Char) : signOf cs <+: cs := by
  cases cs with
  | nil => exact List.prefix_refl []
  | cons c cs =>
      rw [signOf]
      split
      · exact List.cons_prefix_cons.mpr ⟨rfl, List.nil_prefix⟩
      · exact List.nil_prefix

theorem prefix_append {xs ys cs : List Char} (hxs : xs <+: cs) (hys : ys <+: cs.drop xs.length) :
    xs ++ ys <+: cs := by
  rw [← List.prefix_iff_eq_append.mp hxs]
  exact (List.prefix_append_right_inj xs).mpr hys

theorem prefix_exponentOf (cs : List Char) : exponentOf cs <+: cs := by
  cases cs with
  | nil => exact List.prefix_refl []
  | cons c cs =>
      rw [exponentOf]
      split
      · have hdigits := prefix_append (prefix_signOf cs) (List.takeWhile_prefix isDigit)
        dsimp only
        split
        · exact List.nil_prefix
        · exact List.cons_prefix_cons.mpr ⟨rfl, hdigits⟩
      · exact List.nil_prefix

theorem prefix_numberOf (cs : List Char) : (numberOf cs).2 <+: cs := by
  unfold numberOf
  dsimp only
  split
  · exact List.takeWhile_prefix isDigit
  · have hnumber := prefix_append (List.takeWhile_prefix isDigit)
      (prefix_fractionOf (cs.drop (cs.takeWhile isDigit).length))
    apply prefix_append hnumber
    rw [List.length_append]
    exact prefix_exponentOf _

theorem numberOf_ne_nil {c : Char} {cs : List Char} (hc : isDigit c = true) :
    (numberOf (c :: cs)).2 ≠ [] := by
  unfold numberOf
  dsimp only
  split <;> simp [hc]

theorem symbolOf_eq_some {cs text : List Char} {kind : TokenKind}
    (h : symbolOf cs = some (kind, text)) : (text, kind) ∈ symbols ∧ text <+: cs := by
  obtain ⟨entry, hfind, hentry⟩ := Option.map_eq_some_iff.mp h
  cases hentry
  have hlead := List.find?_some hfind
  exact ⟨List.mem_of_find?_eq_some hfind, List.isPrefixOf_iff_prefix.mp hlead⟩

theorem symbols_ne_nil : forall entry, entry ∈ symbols -> entry.1 ≠ [] := by
  decide

theorem symbols_ne_end : forall entry, entry ∈ symbols -> entry.2 ≠ .endOfInput := by
  decide

theorem wordKind_ne_end (text : List Char) : wordKind text ≠ .endOfInput := by
  unfold wordKind
  cases hfind : reserved.lookup (String.ofList text) with
  | none => decide
  | some kind =>
      have hreserved : forall entry, entry ∈ reserved -> entry.2 ≠ .endOfInput := by
        decide
      obtain ⟨before, after, hsplit, -⟩ := List.lookup_eq_some_iff.mp hfind
      exact hreserved (String.ofList text, kind) (by simp [hsplit])

theorem numberOf_ne_end (cs : List Char) : (numberOf cs).1 ≠ .endOfInput := by
  unfold numberOf
  dsimp only
  split <;> simp

theorem longest?_eq_some {cs text : List Char} {kind : TokenKind}
    (h : longest? cs = some (kind, text)) : text <+: cs ∧ text ≠ [] ∧ kind ≠ .endOfInput := by
  cases cs with
  | nil => cases h
  | cons c cs =>
      simp only [longest?] at h
      by_cases hname : isNameStart c = true
      · rw [if_pos hname] at h
        cases h
        refine ⟨List.takeWhile_prefix isNameChar, ?_, wordKind_ne_end _⟩
        simp [isNameChar, hname]
      · rw [if_neg hname] at h
        by_cases hdigit : isDigit c = true
        · rw [if_pos hdigit] at h
          have hnumber : numberOf (c :: cs) = (kind, text) := Option.some.inj h
          have htext : (numberOf (c :: cs)).2 = text := congrArg Prod.snd hnumber
          have hkind : (numberOf (c :: cs)).1 = kind := congrArg Prod.fst hnumber
          rw [← htext, ← hkind]
          exact ⟨prefix_numberOf _, numberOf_ne_nil hdigit, numberOf_ne_end _⟩
        · rw [if_neg hdigit] at h
          obtain ⟨hmem, hlead⟩ := symbolOf_eq_some h
          exact ⟨hlead, symbols_ne_nil _ hmem, symbols_ne_end _ hmem⟩

end Lexeme

namespace Piece

/-!
# Tilings
-/

def NoRule : List Char -> Prop
  | [] => False
  | c :: cs => ¬ Lexeme.Blank c ∧ c ≠ '#' ∧ Lexeme.longest? (c :: cs) = none

/-- Pieces that cover a text, one behind the other.  A comment reaches to a newline or to
the end, and a group of unknown characters up to a character that some rule accepts. -/
inductive Tiles : List Piece -> List Char -> Prop where
  | nil : Tiles [] []
  | blanks {text rest : List Char} {pieces : List Piece} : text ≠ [] ->
      (forall c, c ∈ text -> Lexeme.Blank c) ->
      Tiles pieces rest -> Tiles (.skipped text :: pieces) (text ++ rest)
  | comment {text rest : List Char} {pieces : List Piece} : '\n' ∉ text ->
      (forall c, rest.head? = some c -> c = '\n') ->
      Tiles pieces rest -> Tiles (.skipped ('#' :: text) :: pieces) ('#' :: text ++ rest)
  | lexeme {kind : TokenKind} {text rest : List Char} {pieces : List Piece} :
      Lexeme.longest? (text ++ rest) = some (kind, text) ->
      Tiles pieces rest -> Tiles (.lexeme kind text :: pieces) (text ++ rest)
  | unknown {text rest : List Char} {pieces : List Piece} : text ≠ [] ->
      (forall before c after, text = before ++ c :: after -> NoRule (c :: after ++ rest)) ->
      ¬ NoRule rest ->
      Tiles pieces rest -> Tiles (.unknown text :: pieces) (text ++ rest)

def textOf (pieces : List Piece) : List Char :=
  (pieces.map text).flatten

theorem Tiles.text_eq {pieces : List Piece} {cs : List Char} (h : Tiles pieces cs) :
    textOf pieces = cs := by
  induction h with
  | nil => rfl
  | blanks _ _ _ ih => exact congrArg _ ih
  | comment _ _ _ ih => exact congrArg _ ih
  | lexeme _ _ ih => exact congrArg _ ih
  | unknown _ _ _ _ ih => exact congrArg _ ih

theorem Tiles.lexeme_ne_end {pieces : List Piece} {cs : List Char} (h : Tiles pieces cs)
    {kind : TokenKind} {text : List Char} (hmem : .lexeme kind text ∈ pieces) :
    kind ≠ .endOfInput := by
  induction h with
  | nil => cases hmem
  | blanks _ _ _ ih =>
      rcases List.mem_cons.mp hmem with hmem | hmem
      · cases hmem
      · exact ih hmem
  | comment _ _ _ ih =>
      rcases List.mem_cons.mp hmem with hmem | hmem
      · cases hmem
      · exact ih hmem
  | lexeme hlongest _ ih =>
      rcases List.mem_cons.mp hmem with hmem | hmem
      · cases hmem
        exact (Lexeme.longest?_eq_some hlongest).2.2
      · exact ih hmem
  | unknown _ _ _ _ ih =>
      rcases List.mem_cons.mp hmem with hmem | hmem
      · cases hmem
      · exact ih hmem

theorem Tiles.noRule_iff {pieces : List Piece} {cs : List Char} (h : Tiles pieces cs) :
    NoRule cs <-> exists text rest, pieces = .unknown text :: rest := by
  cases h with
  | nil => simp [NoRule]
  | @blanks text rest pieces hne hblank _ =>
      obtain ⟨c, text, rfl⟩ := List.exists_cons_of_ne_nil hne
      have hc := hblank c List.mem_cons_self
      simp [NoRule, hc]
  | comment _ _ _ => simp [NoRule]
  | @lexeme kind text rest pieces hlongest _ =>
      have hne := (Lexeme.longest?_eq_some hlongest).2.1
      obtain ⟨c, text, rfl⟩ := List.exists_cons_of_ne_nil hne
      rw [List.cons_append] at hlongest
      simp [NoRule, hlongest]
  | @unknown text rest pieces hne hnone _ _ =>
      obtain ⟨c, text, rfl⟩ := List.exists_cons_of_ne_nil hne
      exact iff_of_true (hnone [] c text rfl) ⟨_, _, rfl⟩

theorem Tiles.behind {before pieces : List Piece} {cs : List Char}
    (h : Tiles (before ++ pieces) cs) : Tiles pieces (cs.drop (textOf before).length) := by
  induction before generalizing cs with
  | nil => exact h
  | cons piece before ih =>
      have hdrop : forall text rest : List Char,
          (text ++ rest).drop (text ++ textOf before).length =
            rest.drop (textOf before).length := by
        intro text rest
        rw [List.length_append, ← List.drop_drop, List.drop_left]
      cases h with
      | blanks _ _ hrest => exact (hdrop _ _).symm ▸ ih hrest
      | comment _ _ hrest => exact (hdrop _ _).symm ▸ ih hrest
      | lexeme _ hrest => exact (hdrop _ _).symm ▸ ih hrest
      | unknown _ _ _ hrest => exact (hdrop _ _).symm ▸ ih hrest

theorem Tiles.apart {before after : List Piece} {a b : Piece} {cs : List Char}
    (h : Tiles (before ++ a :: b :: after) cs) (ha : a.isUnknown = true) :
    b.isUnknown = false := by
  have hrest := h.behind
  generalize cs.drop (textOf before).length = rest at hrest
  cases hrest with
  | blanks _ _ _ => cases ha
  | comment _ _ _ => cases ha
  | lexeme _ _ => cases ha
  | unknown _ _ hend hrest =>
      cases b with
      | skipped _ => rfl
      | lexeme _ _ => rfl
      | unknown text => exact absurd (hrest.noRule_iff.mpr ⟨text, after, rfl⟩) hend

/-!
# Cutting gives a tiling
-/

theorem Tiles.joinUnknown {c : Char} {cs : List Char} {pieces : List Piece}
    (hc : NoRule (c :: cs)) (h : Tiles (Piece.joinUnknown pieces) cs) :
    Tiles (Piece.joinUnknown (.unknown [c] :: pieces)) (c :: cs) := by
  have hsingle : forall (before : List Char) (d : Char) (after : List Char),
      [c] = before ++ d :: after -> NoRule (d :: after ++ cs) := by
    intro before d after heq
    cases before with
    | nil =>
        cases heq
        exact hc
    | cons _ before => simp at heq
  cases hjoined : Piece.joinUnknown pieces with
  | nil =>
      rw [hjoined] at h
      simp only [Piece.joinUnknown, hjoined]
      exact .unknown (by simp) hsingle (by simp [h.noRule_iff]) h
  | cons first tail =>
      rw [hjoined] at h
      cases first with
      | skipped _ =>
          simp only [Piece.joinUnknown, hjoined]
          exact .unknown (by simp) hsingle (by simp [h.noRule_iff]) h
      | lexeme _ _ =>
          simp only [Piece.joinUnknown, hjoined]
          exact .unknown (by simp) hsingle (by simp [h.noRule_iff]) h
      | unknown text =>
          simp only [Piece.joinUnknown, hjoined]
          cases h with
          | @unknown _ rest _ _ hnone hend hrest =>
              show Tiles (.unknown (c :: text) :: tail) (c :: text ++ rest)
              refine .unknown (by simp) ?_ hend hrest
              intro before d after heq
              cases before with
              | nil =>
                  cases heq
                  exact hc
              | cons _ before =>
                  rw [List.cons_append, List.cons.injEq] at heq
                  exact hnone before d after heq.2

theorem joinUnknown_cons {piece : Piece} (h : piece.isUnknown = false) (rest : List Piece) :
    joinUnknown (piece :: rest) = piece :: joinUnknown rest := by
  cases piece with
  | skipped _ => rfl
  | lexeme _ _ => rfl
  | unknown _ => cases h

theorem drop_length_takeWhile (p : Char -> Bool) (cs : List Char) :
    cs.drop (cs.takeWhile p).length = cs.dropWhile p := by
  have hdrop : (cs.takeWhile p ++ cs.dropWhile p).drop (cs.takeWhile p).length =
      cs.dropWhile p := List.drop_left
  rw [List.takeWhile_append_dropWhile] at hdrop
  exact hdrop

theorem tiles_blanks {c : Char} {cs : List Char} {pieces : List Piece}
    (hc : Lexeme.isBlank c = true)
    (h : Tiles pieces ((c :: cs).dropWhile Lexeme.isBlank)) :
    Tiles (.skipped ((c :: cs).takeWhile Lexeme.isBlank) :: pieces) (c :: cs) := by
  have hne : (c :: cs).takeWhile Lexeme.isBlank ≠ [] := by
    simp [hc]
  have hall := List.all_eq_true.mp (List.all_takeWhile (p := Lexeme.isBlank) (l := c :: cs))
  have htiles := Tiles.blanks hne (fun d hd => Lexeme.isBlank_iff.mp (hall d hd)) h
  rw [List.takeWhile_append_dropWhile] at htiles
  exact htiles

theorem tiles_comment {cs : List Char} {pieces : List Piece}
    (h : Tiles pieces (cs.dropWhile (· != '\n'))) :
    Tiles (.skipped ('#' :: cs.takeWhile (· != '\n')) :: pieces) ('#' :: cs) := by
  have hall := List.all_eq_true.mp (List.all_takeWhile (p := (· != '\n')) (l := cs))
  have hbody : '\n' ∉ cs.takeWhile (· != '\n') := by
    intro hmem
    simpa using hall _ hmem
  have hend : forall d, (cs.dropWhile (· != '\n')).head? = some d -> d = '\n' := by
    intro d hd
    have hhead := List.head?_dropWhile_not (· != '\n') cs
    rw [hd] at hhead
    simpa using hhead
  have htiles := Tiles.comment hbody hend h
  rw [List.cons_append, List.takeWhile_append_dropWhile] at htiles
  exact htiles

theorem tiles_lexeme {cs text : List Char} {kind : TokenKind} {pieces : List Piece}
    (hlongest : Lexeme.longest? cs = some (kind, text)) (h : Tiles pieces (cs.drop text.length)) :
    Tiles (.lexeme kind text :: pieces) cs := by
  have hsplit := List.prefix_iff_eq_append.mp (Lexeme.longest?_eq_some hlongest).1
  rw [← hsplit] at hlongest ⊢
  exact .lexeme hlongest h

theorem tiles_cutWithin (limit : Nat) (cs : List Char) (hlimit : cs.length ≤ limit) :
    Tiles (joinUnknown (cutWithin limit cs)) cs := by
  induction limit generalizing cs with
  | zero =>
      cases List.eq_nil_of_length_eq_zero (Nat.le_zero.mp hlimit)
      exact .nil
  | succ limit ih =>
      cases cs with
      | nil => exact .nil
      | cons c cs =>
          -- Whatever the first piece is, it takes a character from the limit.
          have hrest : forall n, 0 < n ->
              Tiles (joinUnknown (cutWithin limit ((c :: cs).drop n))) ((c :: cs).drop n) := by
            intro n hn
            apply ih
            rw [List.length_drop]
            omega
          rw [cutWithin, first]
          by_cases hblank : Lexeme.isBlank c = true
          · rw [if_pos hblank, joinUnknown_cons rfl]
            have htaken : 0 < ((c :: cs).takeWhile Lexeme.isBlank).length := by
              simp [hblank]
            have htiles := hrest _ htaken
            rw [drop_length_takeWhile] at htiles
            have hfirst := tiles_blanks hblank htiles
            rw [← drop_length_takeWhile] at hfirst
            exact hfirst
          · rw [if_neg hblank]
            by_cases hhash : c = '#'
            · subst hhash
              rw [if_pos (by decide), joinUnknown_cons rfl]
              have htiles := hrest (cs.takeWhile (· != '\n')).length.succ (Nat.succ_pos _)
              rw [List.drop_succ_cons, drop_length_takeWhile] at htiles
              have hfirst := tiles_comment htiles
              rw [← drop_length_takeWhile] at hfirst
              exact hfirst
            · rw [if_neg (by simpa using hhash)]
              cases hlongest : Lexeme.longest? (c :: cs) with
              | none =>
                  exact Tiles.joinUnknown ⟨fun h => hblank (Lexeme.isBlank_iff.mpr h), hhash, hlongest⟩
                    (hrest 1 Nat.one_pos)
              | some answer =>
                  obtain ⟨kind, text⟩ := answer
                  have hne := (Lexeme.longest?_eq_some hlongest).2.1
                  exact tiles_lexeme hlongest (hrest text.length (List.length_pos_iff.mpr hne))

/-!
# Places
-/

theorem pos_of_place {map : LineMap} {offset : Nat} {pieces : List Piece}
    {before after : List (Pos × Piece)} {entry : Pos × Piece}
    (h : place map offset pieces = before ++ entry :: after) :
    entry.1 = map.pos (offset + utf8Width (textOf (before.map (·.2)))) := by
  induction before generalizing offset pieces with
  | nil =>
      cases pieces with
      | nil => cases h
      | cons piece rest =>
          cases h
          rfl
  | cons first before ih =>
      cases pieces with
      | nil => cases h
      | cons piece rest =>
          rw [place, List.cons_append, List.cons.injEq] at h
          obtain ⟨rfl, h⟩ := h
          have htext : textOf (((map.pos offset, piece) :: before).map (·.2)) =
              piece.text ++ textOf (before.map (·.2)) := rfl
          rw [ih h, htext, utf8Width_append, Nat.add_assoc]

theorem map_place (map : LineMap) (offset : Nat) (pieces : List Piece) :
    (place map offset pieces).map (·.2) = pieces := by
  induction pieces generalizing offset with
  | nil => rfl
  | cons piece rest ih => rw [place, List.map_cons, ih]

/-!
# The limit
-/

def groups (entries : List (Pos × Piece)) : Nat :=
  entries.countP (·.2.isUnknown)

theorem beforeUnknown_of_le {limit : Nat} {entries : List (Pos × Piece)}
    (h : groups entries ≤ limit) : beforeUnknown limit entries = entries := by
  induction entries generalizing limit with
  | nil => rfl
  | cons entry rest ih =>
      rw [groups, List.countP_cons] at h
      rw [beforeUnknown.eq_def]
      dsimp only
      cases hunknown : entry.2.isUnknown with
      | false =>
          rw [hunknown] at h
          rw [if_neg Bool.false_ne_true, ih h]
      | true =>
          rw [hunknown, if_pos rfl] at h
          rw [if_pos rfl]
          cases limit with
          | zero => exact absurd h (Nat.not_succ_le_zero _)
          | succ limit => exact congrArg (entry :: ·) (ih (Nat.le_of_succ_le_succ h))

theorem beforeUnknown_of_lt {limit : Nat} {entries : List (Pos × Piece)}
    (h : limit < groups entries) :
    groups (beforeUnknown limit entries) = limit ∧
      exists group later, entries = beforeUnknown limit entries ++ group :: later ∧
        group.2.isUnknown = true := by
  induction entries generalizing limit with
  | nil => cases h
  | cons entry rest ih =>
      rw [groups, List.countP_cons] at h
      rw [beforeUnknown.eq_def]
      dsimp only
      cases hunknown : entry.2.isUnknown with
      | false =>
          rw [hunknown] at h
          obtain ⟨hcount, group, later, hsplit, hgroup⟩ := ih h
          rw [if_neg Bool.false_ne_true]
          refine ⟨?_, group, later, congrArg (entry :: ·) hsplit, hgroup⟩
          rw [groups, List.countP_cons, hunknown]
          exact hcount
      | true =>
          rw [hunknown, if_pos rfl] at h
          rw [if_pos rfl]
          cases limit with
          | zero => exact ⟨rfl, entry, rest, rfl, hunknown⟩
          | succ limit =>
              obtain ⟨hcount, group, later, hsplit, hgroup⟩ := ih (Nat.lt_of_succ_lt_succ h)
              refine ⟨?_, group, later, congrArg (entry :: ·) hsplit, hgroup⟩
              show groups (entry :: beforeUnknown limit rest) = limit + 1
              rw [groups, List.countP_cons, hunknown]
              exact congrArg (· + 1) hcount

end Piece

/-!
# Tokens and errors
-/

open Piece (Tiles groups textOf)

/-- Pieces that lie on a source from its start to its end, each at its place. -/
structure Lays (source : String) (entries : List (Pos × Piece)) : Prop where
  /-- The pieces follow each other without a gap, by the rules. -/
  tiles : Tiles (entries.map (·.2)) source.toList
  /-- A piece is the text of the source at the byte offset that its position denotes. -/
  slice : forall before pos piece after, entries = before ++ (pos, piece) :: after ->
    exists offset behind, offset = utf8Width (textOf (before.map (·.2))) ∧
      source.toList = textOf (before.map (·.2)) ++ piece.text ++ behind ∧
      (LineMap.ofSource source).offset? pos = some offset ∧
      (LineMap.ofSource source).pos offset = pos
  /-- No two groups of unknown characters touch. -/
  apart : forall before a b after, entries = before ++ a :: b :: after ->
    a.2.isUnknown = true -> b.2.isUnknown = false

theorem Piece.Tiles.text_ne_nil {pieces : List Piece} {cs : List Char} (h : Tiles pieces cs)
    {piece : Piece} (hmem : piece ∈ pieces) : piece.text ≠ [] := by
  induction h with
  | nil => cases hmem
  | blanks hne _ _ ih =>
      rcases List.mem_cons.mp hmem with rfl | hmem
      · exact hne
      · exact ih hmem
  | comment _ _ _ ih =>
      rcases List.mem_cons.mp hmem with rfl | hmem
      · exact List.cons_ne_nil _ _
      · exact ih hmem
  | lexeme hlongest _ ih =>
      rcases List.mem_cons.mp hmem with rfl | hmem
      · exact (Lexeme.longest?_eq_some hlongest).2.1
      · exact ih hmem
  | unknown hne _ _ _ ih =>
      rcases List.mem_cons.mp hmem with rfl | hmem
      · exact hne
      · exact ih hmem

def placedPieces (source : String) : List (Pos × Piece) :=
  Piece.place (.ofSource source) 0 (Piece.joinUnknown (Piece.cut source.toList))

theorem tiles_pieces (source : String) :
    Tiles (Piece.joinUnknown (Piece.cut source.toList)) source.toList :=
  Piece.tiles_cutWithin _ _ (Nat.le_refl _)

theorem map_placedPieces (source : String) :
    (placedPieces source).map (·.2) = Piece.joinUnknown (Piece.cut source.toList) :=
  Piece.map_place _ _ _

theorem lays_placedPieces {source : String} (hsize : (sourceBytes source).length < 4294967296) :
    Lays source (placedPieces source) where
  tiles := by
    rw [map_placedPieces]
    exact tiles_pieces source
  slice := by
    intro before pos piece after hsplit
    have hpieces := congrArg (List.map (·.2)) hsplit
    rw [map_placedPieces, List.map_append, List.map_cons] at hpieces
    have htiles := tiles_pieces source
    have hsource : source.toList =
        textOf (before.map (·.2)) ++ (piece.text ++ textOf (after.map (·.2))) := by
      rw [← htiles.text_eq, hpieces]
      simp [textOf]
    have hpos : pos = (LineMap.ofSource source).pos (0 + utf8Width (textOf (before.map (·.2)))) :=
      Piece.pos_of_place hsplit
    rw [Nat.zero_add] at hpos
    -- The piece has a byte of its own, so that it starts before the end of the source.
    have hpiece : piece.text ≠ [] :=
      htiles.text_ne_nil (hpieces ▸ List.mem_append_right _ List.mem_cons_self)
    have hwidth := List.length_pos_iff.mpr hpiece
    have hbytes := length_le_utf8Width piece.text
    rw [length_sourceBytes, hsource, utf8Width_append, utf8Width_append] at hsize
    have hle : utf8Width (textOf (before.map (·.2))) ≤ (sourceBytes source).length := by
      rw [length_sourceBytes, hsource, utf8Width_append]
      exact Nat.le_add_right _ _
    have hoffset := LineMap.offset?_pos hle (by omega)
    refine ⟨_, textOf (after.map (·.2)), rfl, ?_, hpos ▸ hoffset, hpos.symm⟩
    rw [List.append_assoc]
    exact hsource
  apart := by
    intro before a b after hsplit ha
    have hpieces := congrArg (List.map (·.2)) hsplit
    rw [map_placedPieces, List.map_append, List.map_cons, List.map_cons] at hpieces
    have htiles := tiles_pieces source
    rw [hpieces] at htiles
    exact htiles.apart ha

theorem mem_placedPieces {source : String} {entry : Pos × Piece}
    (h : entry ∈ Lexed.pieces source) : entry ∈ placedPieces source := by
  rcases Nat.lt_or_ge LexError.limit (groups (placedPieces source)) with hmany | hfew
  · obtain ⟨-, group, later, hsplit, -⟩ := Piece.beforeUnknown_of_lt hmany
    rw [hsplit]
    exact List.mem_append_left _ h
  · have hall := Piece.beforeUnknown_of_le hfew
    exact hall ▸ h

/-- The tokens and the errors that the lexer reports are the lexemes and the groups of
unknown characters of the source, in their order: all of them if there are at most twenty
groups, and else those that stand before the group with which the lexer stops. -/
def CoversSource (source : String) : Prop :=
  exists whole covered : List (Pos × Piece),
    Lays source whole ∧
    (lex source).tokens =
      covered.filterMap Lexed.token? ++ [{ pos := ⟨0, 0⟩, kind := .endOfInput, text := "" }] ∧
    (forall token, token ∈ covered.filterMap Lexed.token? -> token.kind ≠ .endOfInput) ∧
    (lex source).errors = covered.filterMap Lexed.error? ∧
    (groups whole ≤ 20 -> covered = whole) ∧
    (20 < groups whole -> groups covered = 20 ∧
      exists group later, whole = covered ++ group :: later ∧ group.2.isUnknown = true)

/-- In a source of less than `2 ^ 32` bytes the lexer gives every piece the position that
denotes its offset. -/
theorem lex_covers_source (source : String) (hsize : (sourceBytes source).length < 4294967296) :
    CoversSource source := by
  refine ⟨placedPieces source, Lexed.pieces source, lays_placedPieces hsize, rfl, ?_, rfl, ?_, ?_⟩
  · intro token htoken
    obtain ⟨⟨pos, piece⟩, hentry, hread⟩ := List.mem_filterMap.mp htoken
    have hpiece := List.mem_map_of_mem (f := (·.2)) (mem_placedPieces hentry)
    rw [map_placedPieces] at hpiece
    cases piece with
    | skipped _ => cases hread
    | unknown _ => cases hread
    | lexeme kind text =>
        cases hread
        exact (tiles_pieces source).lexeme_ne_end hpiece
  · exact Piece.beforeUnknown_of_le
  · exact Piece.beforeUnknown_of_lt

theorem lex_covers_source_marks :
    (sourceBytes "é$ x # é\n").length < 4294967296 ∧ CoversSource "é$ x # é\n" := by
  have hsize : (sourceBytes "é$ x # é\n").length < 4294967296 := by decide
  exact ⟨hsize, lex_covers_source _ hsize⟩

/-!
# Wide lines
-/

def indented (n : Nat) : String :=
  String.ofList (List.replicate n ' ' ++ ['x'])

theorem toList_indented (n : Nat) : (indented n).toList = List.replicate n ' ' ++ ['x'] :=
  String.toList_ofList

theorem lines_indented (n : Nat) :
    (LineMap.ofSource (indented n)).lines = [List.replicate n ' ' ++ ['x']] := by
  rw [LineMap.ofSource, toList_indented]
  induction n with
  | zero => rfl
  | succ n ih =>
      have hspace : ' ' ≠ '\n' := by decide
      exact splitLines_cons hspace ih

theorem joinUnknown_indented (n : Nat) :
    Piece.joinUnknown (Piece.cut (List.replicate (n + 1) ' ' ++ ['x'])) =
      [.skipped (List.replicate (n + 1) ' '), .lexeme .name ['x']] := by
  have htake : (List.replicate (n + 1) ' ' ++ ['x']).takeWhile Lexeme.isBlank =
      List.replicate (n + 1) ' ' := by
    rw [List.takeWhile_append_of_pos]
    · simp [show Lexeme.isBlank 'x' = false by decide]
    · intro c hc
      rw [List.eq_of_mem_replicate hc]
      decide
  have hcut : Piece.cut (List.replicate (n + 1) ' ' ++ ['x']) =
      [.skipped (List.replicate (n + 1) ' '), .lexeme .name ['x']] := by
    have hblank : Lexeme.isBlank ' ' = true := by decide
    have hfirst : Piece.first ' ' (List.replicate n ' ' ++ ['x']) =
        .skipped (List.replicate (n + 1) ' ') := by
      rw [Piece.first, if_pos hblank]
      exact congrArg Piece.skipped htake
    have hrest : (List.replicate (n + 1) ' ' ++ ['x']).drop (List.replicate (n + 1) ' ').length =
        ['x'] := List.drop_left
    change (' ' :: (List.replicate n ' ' ++ ['x'])).drop
      (Piece.skipped (List.replicate (n + 1) ' ')).text.length = ['x'] at hrest
    have hname : Piece.first 'x' [] = .lexeme .name ['x'] := rfl
    have hbehind : ['x'].drop (Piece.lexeme .name ['x']).text.length = [] := rfl
    have hend : Piece.cutWithin n [] = [] := by cases n <;> rfl
    rw [Piece.cut, List.length_append, List.length_replicate, List.length_singleton,
      List.replicate_succ, List.cons_append, Piece.cutWithin, hfirst, hrest, Piece.cutWithin, hname,
      hbehind, hend]
    rfl
  rw [hcut]
  rfl

theorem pieces_indented (n : Nat) : Lexed.pieces (indented (n + 1)) =
    [({ line := 1, column := 1 }, .skipped (List.replicate (n + 1) ' ')),
      ((LineMap.ofSource (indented (n + 1))).pos (n + 1), .lexeme .name ['x'])] := by
  have hwidth : utf8Width (List.replicate (n + 1) ' ') = n + 1 := by
    induction n with
    | zero => rfl
    | succ n ih =>
        have hspace : Char.utf8Size ' ' = 1 := rfl
        rw [List.replicate_succ, utf8Width_cons, ih, hspace, Nat.add_comm]
  have hstart : (LineMap.ofSource (indented (n + 1))).pos 0 = { line := 1, column := 1 } := by
    rw [LineMap.pos, lines_indented]
    rfl
  have hplaced : placedPieces (indented (n + 1)) =
      [({ line := 1, column := 1 }, .skipped (List.replicate (n + 1) ' ')),
        ((LineMap.ofSource (indented (n + 1))).pos (n + 1), .lexeme .name ['x'])] := by
    rw [placedPieces, toList_indented, joinUnknown_indented, Piece.place, Piece.place, Piece.place,
      hstart, Piece.text, hwidth, Nat.zero_add]
  show Piece.beforeUnknown LexError.limit (placedPieces (indented (n + 1))) = _
  rw [hplaced]
  rfl

/-- A name behind `2 ^ 32 - 1` spaces is said to stand in column zero, where no byte is. -/
theorem not_coversSource_indented : ¬ CoversSource (indented 4294967295) := by
  intro hcovers
  rcases hcovers with ⟨whole, covered, hlays, htokens, -, -, hfew, hmany⟩
  have hpos : (LineMap.ofSource (indented 4294967295)).pos 4294967295 =
      { line := 1, column := 0 } := by
    rw [LineMap.pos, lines_indented]
    rfl
  have htoken : { pos := { line := 1, column := 0 }, kind := .name, text := "x" } ∈
      covered.filterMap Lexed.token? := by
    have hpieces := pieces_indented 4294967294
    rw [show 4294967294 + 1 = 4294967295 from rfl, hpos] at hpieces
    rw [lex, hpieces] at htokens
    have hfront := List.append_inj_left' htokens rfl
    rw [← hfront]
    exact List.mem_singleton_self _
  have hincluded : forall entry, entry ∈ covered -> entry ∈ whole := by
    intro entry hentry
    rcases Nat.lt_or_ge 20 (groups whole) with hlt | hle
    · obtain ⟨-, group, later, hsplit, -⟩ := hmany hlt
      rw [hsplit]
      exact List.mem_append_left _ hentry
    · rwa [← hfew hle]
  obtain ⟨⟨pos, piece⟩, hentry, hread⟩ := List.mem_filterMap.mp htoken
  obtain ⟨before, after, hsplit⟩ := List.append_of_mem (hincluded _ hentry)
  obtain ⟨offset, behind, -, -, hoffset, -⟩ := hlays.slice before pos piece after hsplit
  have hsame : pos = { line := 1, column := 0 } := by
    cases piece with
    | skipped _ => cases hread
    | unknown _ => cases hread
    | lexeme _ _ => exact congrArg Token.pos (Option.some.inj hread)
  rw [hsame] at hoffset
  cases hoffset

end Scriptlet
