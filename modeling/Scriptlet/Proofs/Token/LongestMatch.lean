import Scriptlet.Proofs.Token.Rules

/-!
# Longest match over whole sources

Every token of a source is the longest lexeme at the front of what the lexer has not read
when it comes to it.  A lexeme that stands before a blank is read like one that stands
anywhere else, so the tokens of a source are read again from their texts with single
spaces between them.
-/

namespace Scriptlet
namespace Lexeme

/-!
# Reserved words
-/

theorem reserved_ne_name : forall entry, entry ∈ reserved -> entry.2 ≠ .name := by
  decide

/-- No reserved word starts another one. -/
theorem reserved_apart : forall a, a ∈ reserved -> forall b, b ∈ reserved ->
    a.1.toList.isPrefixOf b.1.toList = true -> a = b := by
  decide

/-- What the lexer takes from the front of a text.  A name is no reserved word, and a
reserved word that goes on is a name. -/
structure Munch (kind : TokenKind) (text cs : List Char) : Prop where
  longest : Longest kind text cs
  unreserved : kind = .name -> forall other word, Word other word -> word.toList ≠ text
  extended : forall other word c, Word other word -> NameChar c ->
    word.toList ++ [c] <+: cs -> kind = .name

theorem Longest.unreserved {text cs : List Char} (h : Longest .name text cs)
    {other : TokenKind} {word : String} (hword : Word other word) : word.toList ≠ text := by
  intro htext
  have hrule : Rule other text := htext ▸ Rule.word hword
  have hname := h.preferred other hrule
  rw [or_self] at hname
  exact reserved_ne_name _ (word_iff.mp hword) hname

theorem Longest.extended {kind other : TokenKind} {text cs : List Char} (h : Longest kind text cs)
    {word : String} (hword : Word other word) {c : Char} (hc : NameChar c)
    (hfront : word.toList ++ [c] <+: cs) : kind = .name := by
  have hreserved := word_iff.mp hword
  obtain ⟨d, ds, htext, hsort⟩ := (Rule.word hword).sort
  have hstart : isNameStart d = true ∧ forall e, e ∈ word.toList -> isNameChar e = true := by
    obtain ⟨hhead, hall⟩ := reserved_words _ hreserved
    rw [htext] at hhead hall ⊢
    exact ⟨hhead, List.all_eq_true.mp hall⟩
  have hname : Rule .name (word.toList ++ [c]) := by
    rw [htext] at hstart ⊢
    refine .name (isNameStart_iff.mp hstart.1) ?_
    intro e he
    rcases List.mem_append.mp he with he | he
    · exact isNameChar_iff.mp (hstart.2 e (List.mem_cons_of_mem d he))
    · rwa [List.mem_singleton.mp he]
  -- The lexeme is longer than the word, and no reserved word is.
  have hlength := h.longest .name _ hname hfront
  have hlead : word.toList ++ [c] <+: text :=
    List.prefix_of_prefix_length_le hfront h.front hlength
  have hinside : word.toList <+: text := (List.prefix_append _ [c]).trans hlead
  obtain ⟨e, es, rfl, hkind⟩ := h.rule.sort
  have he : isNameStart e = true := by
    rw [htext] at hinside
    rw [← (List.cons_prefix_cons.mp hinside).1]
    exact hstart.1
  rcases hkind with ⟨-, -, hname | hsame⟩ | ⟨hnot, -, -⟩ | ⟨hnot, -, -⟩
  · exact hname
  · have hword : (word, other) = (String.ofList (e :: es), kind) := by
      apply reserved_apart _ hreserved _ hsame
      rw [String.toList_ofList]
      exact List.isPrefixOf_iff_prefix.mpr hinside
    rw [(Prod.mk.inj hword).1, String.toList_ofList, List.length_append,
      List.length_singleton] at hlength
    exact absurd hlength (Nat.not_succ_le_self _)
  · exact absurd he (Bool.eq_false_iff.mp hnot)
  · exact absurd he (Bool.eq_false_iff.mp hnot)

theorem munch_of_longest? {cs text : List Char} {kind : TokenKind}
    (h : longest? cs = some (kind, text)) : Munch kind text cs := by
  have hlongest := longest_of_longest? h
  refine ⟨hlongest, ?_, ?_⟩
  · intro hname other word hword
    subst hname
    exact hlongest.unreserved hword
  · intro other word c hword hc hfront
    exact hlongest.extended hword hc hfront

/-!
# Lexemes before blanks
-/

def isVisible (c : Char) : Bool :=
  !isBlank c && c != '#'

theorem not_visible {c : Char} (h : isVisible c = false) :
    c ∈ [' ', '\t', '\r', '\n', '\x0c', '#'] := by
  by_cases hblank : isBlank c = true
  · simp only [isBlank, Bool.or_eq_true, beq_iff_eq] at hblank
    simp only [List.mem_cons]
    tauto
  · have hhash : c = '#' := by
      simpa [isVisible, Bool.eq_false_iff.mpr hblank] using h
    simp [hhash]

theorem visible_of {p : Char -> Bool}
    (hp : [' ', '\t', '\r', '\n', '\x0c', '#'].any p = false) {c : Char}
    (h : p c = true) : isVisible c = true := by
  cases hc : isVisible c with
  | true => rfl
  | false => exact absurd h (List.any_eq_false.mp hp c (not_visible hc))

theorem visible_nameChar {c : Char} : isNameChar c = true -> isVisible c = true :=
  visible_of (by decide)

theorem visible_digit {c : Char} : isDigit c = true -> isVisible c = true :=
  visible_of (by decide)

theorem visible_symbols : forall entry, entry ∈ symbols -> entry.1.all isVisible = true := by
  decide

theorem Exponent.visible {cs : List Char} (h : Exponent cs) :
    forall c, c ∈ cs -> isVisible c = true := by
  intro c hc
  cases h with
  | unsigned he hdigits =>
      rcases List.mem_cons.mp hc with rfl | hc
      · rcases he with rfl | rfl <;> decide
      · exact visible_digit (hdigits.all c hc)
  | signed he hsign hdigits =>
      rcases List.mem_cons.mp hc with rfl | hc
      · rcases he with rfl | rfl <;> decide
      · rcases List.mem_cons.mp hc with rfl | hc
        · rcases hsign with rfl | rfl <;> decide
        · exact visible_digit (hdigits.all c hc)

theorem Number.visible {kind : TokenKind} {cs : List Char} (h : Number kind cs) :
    forall c, c ∈ cs -> isVisible c = true := by
  intro c hc
  cases h with
  | int hdigits => exact visible_digit (hdigits.all c hc)
  | float hwhole hfraction hexponent =>
      rcases List.mem_append.mp hc with hc | hc
      · rcases List.mem_append.mp hc with hc | hc
        · exact visible_digit (hwhole.all c hc)
        · rcases List.mem_cons.mp hc with rfl | hc
          · decide
          · exact visible_digit (hfraction.all c hc)
      · rcases hexponent with rfl | hexponent
        · cases hc
        · exact hexponent.visible c hc

theorem Rule.visible {kind : TokenKind} {text : List Char} (h : Rule kind text) :
    forall c, c ∈ text -> isVisible c = true := by
  intro c hc
  obtain ⟨d, ds, -, hsort⟩ := h.sort
  rcases hsort with ⟨-, hall, -⟩ | ⟨-, -, hnumber⟩ | ⟨-, -, hsymbol⟩
  · exact visible_nameChar (hall c hc)
  · exact hnumber.visible c hc
  · exact List.all_eq_true.mp (visible_symbols _ hsymbol) c hc

theorem Longest.before_space {kind : TokenKind} {text cs rest : List Char}
    (h : Longest kind text cs) (hrest : rest = [] ∨ rest.head? = some ' ') :
    Longest kind text (text ++ rest) := by
  refine ⟨List.prefix_append text rest, h.rule, ?_, h.preferred⟩
  intro other t hrule hfront
  rcases hrest with rfl | hspace
  · rw [List.append_nil] at hfront
    exact hfront.length_le
  · obtain ⟨tail, rfl⟩ := List.head?_eq_some_iff.mp hspace
    apply Nat.le_of_not_lt
    intro hlonger
    have hlead : text ++ [' '] <+: t := by
      apply List.prefix_of_prefix_length_le _ hfront
      · rw [List.length_append]
        exact hlonger
      · exact (List.prefix_append_right_inj text).mpr (List.prefix_append [' '] tail)
    have hvisible := hrule.visible ' ' (hlead.mem (by simp))
    exact absurd hvisible (by decide)

end Lexeme

namespace Piece

/-!
# Spaced lexemes
-/

def lexeme? : Piece -> Option (TokenKind × List Char)
  | lexeme kind text => some (kind, text)
  | _ => none

theorem Tiles.of_longest {pieces : List Piece} {cs text : List Char} {kind : TokenKind}
    (h : Tiles pieces cs) (hlongest : Lexeme.longest? cs = some (kind, text)) :
    exists later, pieces = .lexeme kind text :: later ∧ Tiles later (cs.drop text.length) := by
  have hfound := Lexeme.longest_of_longest? hlongest
  cases h with
  | nil => cases hlongest
  | @blanks blanks rest _ hne hblank _ =>
      obtain ⟨c, blanks, rfl⟩ := List.exists_cons_of_ne_nil hne
      obtain ⟨d, ds, rfl, -⟩ := hfound.rule.sort
      obtain ⟨rfl, -⟩ := List.cons_prefix_cons.mp hfound.front
      have hvisible := hfound.rule.visible d List.mem_cons_self
      simp [Lexeme.isVisible, Lexeme.isBlank_iff.mpr (hblank d List.mem_cons_self)] at hvisible
  | comment _ _ _ =>
      obtain ⟨d, ds, rfl, -⟩ := hfound.rule.sort
      obtain ⟨rfl, -⟩ := List.cons_prefix_cons.mp hfound.front
      exact absurd (hfound.rule.visible '#' List.mem_cons_self) (by decide)
  | @lexeme kind' text' rest pieces hlongest' hrest =>
      cases hlongest'.symm.trans hlongest
      exact ⟨pieces, rfl, by rwa [List.drop_left]⟩
  | @unknown unknown rest _ hne hnone _ _ =>
      obtain ⟨c, unknown, rfl⟩ := List.exists_cons_of_ne_nil hne
      have hnothing := (hnone [] c unknown rfl).2.2
      exact absurd (hnothing.symm.trans hlongest) (by simp)

theorem Tiles.of_space {pieces : List Piece} {cs : List Char} (h : Tiles pieces (' ' :: cs))
    (hcs : forall c, cs.head? = some c -> Lexeme.isBlank c = false) :
    exists later, pieces = .skipped [' '] :: later ∧ Tiles later cs := by
  generalize hwhole : ' ' :: cs = whole at h
  cases h with
  | nil => cases hwhole
  | @blanks blanks rest later hne hblank hrest =>
      obtain ⟨c, blanks, rfl⟩ := List.exists_cons_of_ne_nil hne
      obtain ⟨rfl, rfl⟩ := List.cons_eq_cons.mp hwhole
      cases blanks with
      | nil => exact ⟨later, rfl, hrest⟩
      | cons d blanks =>
          have hd := Lexeme.isBlank_iff.mpr (hblank d (List.mem_cons_of_mem ' ' List.mem_cons_self))
          exact absurd hd (Bool.eq_false_iff.mp (hcs d rfl))
  | comment _ _ _ => cases hwhole
  | @lexeme kind text rest _ hlongest _ =>
      have hfound := Lexeme.longest_of_longest? hlongest
      obtain ⟨d, ds, rfl, -⟩ := hfound.rule.sort
      obtain ⟨rfl, -⟩ := List.cons_eq_cons.mp hwhole
      exact absurd (hfound.rule.visible ' ' List.mem_cons_self) (by decide)
  | @unknown unknown rest _ hne hnone _ _ =>
      obtain ⟨c, unknown, rfl⟩ := List.exists_cons_of_ne_nil hne
      obtain ⟨rfl, -⟩ := List.cons_eq_cons.mp hwhole
      exact absurd (.inl rfl) (hnone [] ' ' unknown rfl).1

theorem Tiles.longest_of_mem {pieces : List Piece} {cs text : List Char} {kind : TokenKind}
    (h : Tiles pieces cs) (hmem : .lexeme kind text ∈ pieces) :
    exists left, Lexeme.Longest kind text left := by
  obtain ⟨before, after, rfl⟩ := List.append_of_mem hmem
  have hbehind := h.behind
  generalize cs.drop (textOf before).length = left at hbehind
  cases hbehind with
  | lexeme hlongest _ => exact ⟨_, Lexeme.longest_of_longest? hlongest⟩

theorem Tiles.eq_nil {pieces : List Piece} (h : Tiles pieces []) : pieces = [] := by
  generalize hnil : [] = cs at h
  cases h with
  | nil => rfl
  | blanks hne _ _ => exact absurd (List.append_eq_nil_iff.mp hnil.symm).1 hne
  | comment _ _ _ => cases hnil
  | lexeme hlongest _ =>
      have hne := (Lexeme.longest?_eq_some hlongest).2.1
      exact absurd (List.append_eq_nil_iff.mp hnil.symm).1 hne
  | unknown hne _ _ _ => exact absurd (List.append_eq_nil_iff.mp hnil.symm).1 hne

def spaced (lexemes : List (TokenKind × List Char)) (last : List (List Char)) : List Char :=
  [' '].intercalate (lexemes.map (·.2) ++ last)

section Spaced

variable {lexemes : List (TokenKind × List Char)} {last : List (List Char)}

theorem spaced_cons (entry : TokenKind × List Char) (lexemes : List (TokenKind × List Char))
    (last : List (List Char)) :
    exists behind, spaced (entry :: lexemes) last = entry.2 ++ behind ∧
      (behind = [] ∧ lexemes = [] ∨ behind = ' ' :: spaced lexemes last) := by
  rw [spaced, List.map_cons, List.cons_append]
  cases htexts : lexemes.map (·.2) ++ last with
  | nil =>
      have hnone := List.map_eq_nil_iff.mp (List.append_eq_nil_iff.mp htexts).1
      exact ⟨[], by rw [List.intercalate_singleton, List.append_nil], .inl ⟨rfl, hnone⟩⟩
  | cons text texts =>
      refine ⟨' ' :: spaced lexemes last, ?_, .inr rfl⟩
      rw [List.intercalate_cons_cons, spaced, htexts]
      simp

variable (hlast : last = [] ∨ last = [[]])

include hlast

theorem spaced_nil : spaced [] last = [] := by
  rcases hlast with rfl | rfl <;> rfl

variable (hlexemes : forall entry, entry ∈ lexemes -> exists cs, Lexeme.Longest entry.1 entry.2 cs)

include hlexemes

theorem head_spaced {c : Char} (hc : (spaced lexemes last).head? = some c) :
    Lexeme.isBlank c = false := by
  cases lexemes with
  | nil =>
      rw [spaced_nil hlast] at hc
      cases hc
  | cons entry lexemes =>
      obtain ⟨cs, hlongest⟩ := hlexemes entry List.mem_cons_self
      obtain ⟨behind, hspaced, -⟩ := spaced_cons entry lexemes last
      obtain ⟨d, ds, htext, -⟩ := hlongest.rule.sort
      rw [hspaced, htext, List.cons_append] at hc
      cases hc
      have hvisible := hlongest.rule.visible c (by simp [htext])
      simpa [Lexeme.isVisible] using (Bool.and_eq_true_iff.mp hvisible).1

theorem Tiles.of_spaced {pieces : List Piece} (h : Tiles pieces (spaced lexemes last)) :
    pieces.filterMap lexeme? = lexemes ∧ forall piece, piece ∈ pieces -> piece.isUnknown = false := by
  induction lexemes generalizing pieces with
  | nil =>
      rw [spaced_nil hlast] at h
      rw [h.eq_nil]
      exact ⟨rfl, fun piece hpiece => by cases hpiece⟩
  | cons entry lexemes ih =>
      have hrest := fun e he => hlexemes e (List.mem_cons_of_mem entry he)
      obtain ⟨cs, hlongest⟩ := hlexemes entry List.mem_cons_self
      obtain ⟨behind, hspaced, hbehind⟩ := spaced_cons entry lexemes last
      have hfound : Lexeme.longest? (entry.2 ++ behind) = some entry := by
        apply Lexeme.longest?_eq_some_iff.mpr
        apply hlongest.before_space
        rcases hbehind with ⟨hnil, -⟩ | hspace
        · exact .inl hnil
        · exact .inr (by rw [hspace]; rfl)
      rw [hspaced] at h
      obtain ⟨later, rfl, hlater⟩ := h.of_longest hfound
      rw [List.drop_left] at hlater
      rcases hbehind with ⟨rfl, rfl⟩ | rfl
      · rw [hlater.eq_nil]
        refine ⟨rfl, ?_⟩
        intro piece hpiece
        rw [List.mem_singleton.mp hpiece]
        rfl
      · obtain ⟨rest, rfl, htiles⟩ := hlater.of_space fun c => head_spaced hlast hrest
        obtain ⟨hsame, hknown⟩ := ih hrest htiles
        refine ⟨?_, ?_⟩
        · exact congrArg (entry :: ·) hsame
        · intro piece hpiece
          rcases List.mem_cons.mp hpiece with rfl | hpiece
          · rfl
          · rcases List.mem_cons.mp hpiece with rfl | hpiece
            · rfl
            · exact hknown piece hpiece

end Spaced
end Piece

/-!
# Tokens
-/

open Piece (Tiles groups textOf)

def Token.lexeme (token : Token) : TokenKind × String :=
  (token.kind, token.text)

theorem lexeme_of_pieces (entries : List (Pos × Piece)) :
    (entries.filterMap Lexed.token?).map Token.lexeme =
      ((entries.map (·.2)).filterMap Piece.lexeme?).map fun e => (e.1, String.ofList e.2) := by
  induction entries with
  | nil => rfl
  | cons entry entries ih =>
      obtain ⟨pos, piece⟩ := entry
      cases piece with
      | skipped _ => exact ih
      | unknown _ => exact ih
      | lexeme kind text => exact congrArg (_ :: ·) ih

theorem lex_of_known {source : String}
    (h : forall piece, piece ∈ Piece.joinUnknown (Piece.cut source.toList) ->
      piece.isUnknown = false) :
    (lex source).errors = [] ∧ (lex source).tokens.map Token.lexeme =
      ((Piece.joinUnknown (Piece.cut source.toList)).filterMap Piece.lexeme?).map
        (fun e => (e.1, String.ofList e.2)) ++ [Token.endOfInput.lexeme] := by
  have hknown : forall entry, entry ∈ placedPieces source -> entry.2.isUnknown = false := by
    intro entry hentry
    have hpiece := List.mem_map_of_mem (f := (·.2)) hentry
    rw [map_placedPieces] at hpiece
    exact h entry.2 hpiece
  have hgroups : groups (placedPieces source) = 0 := by
    rw [groups, List.countP_eq_zero]
    intro entry hentry
    simp [hknown entry hentry]
  have hfew : groups (placedPieces source) ≤ LexError.limit := by
    rw [hgroups]
    exact Nat.zero_le _
  have hpieces : Lexed.pieces source = placedPieces source := Piece.beforeUnknown_of_le hfew
  constructor
  · show (Lexed.pieces source).filterMap Lexed.error? = []
    rw [hpieces, List.filterMap_eq_nil_iff]
    rintro ⟨pos, piece⟩ hentry
    have hpiece := hknown _ hentry
    cases piece with
    | skipped _ => rfl
    | lexeme _ _ => rfl
    | unknown _ => cases hpiece
  · show ((Lexed.pieces source).filterMap Lexed.token? ++ [Token.endOfInput]).map _ = _
    rw [List.map_append, hpieces, lexeme_of_pieces, map_placedPieces]
    rfl

theorem known_of_no_errors {source : String} (h : (lex source).errors = []) :
    forall piece, piece ∈ Piece.joinUnknown (Piece.cut source.toList) ->
      piece.isUnknown = false := by
  have hcovered : forall entry, entry ∈ Lexed.pieces source -> entry.2.isUnknown = false := by
    rintro ⟨pos, piece⟩ hentry
    have hnone := List.filterMap_eq_nil_iff.mp h _ hentry
    cases piece with
    | skipped _ => rfl
    | lexeme _ _ => rfl
    | unknown _ => cases hnone
  have hgroups : groups (Lexed.pieces source) = 0 := by
    rw [groups, List.countP_eq_zero]
    intro entry hentry
    simp [hcovered entry hentry]
  have hfew : groups (placedPieces source) ≤ LexError.limit := by
    apply Nat.le_of_not_lt
    intro hmany
    have hlimit := (Piece.beforeUnknown_of_lt hmany).1
    exact absurd (hgroups.symm.trans hlimit) (by decide)
  intro piece hpiece
  rw [← map_placedPieces] at hpiece
  obtain ⟨entry, hentry, rfl⟩ := List.mem_map.mp hpiece
  have hall : Lexed.pieces source = placedPieces source := Piece.beforeUnknown_of_le hfew
  apply hcovered
  rw [hall]
  exact hentry

section Fronts

variable {pieces before after : List Piece} {cs : List Char}

theorem Piece.Tiles.munch {kind : TokenKind} {text : List Char}
    (h : Tiles (before ++ .lexeme kind text :: after) cs) :
    Lexeme.Munch kind text (cs.drop (textOf before).length) := by
  have hbehind := h.behind
  generalize cs.drop (textOf before).length = left at hbehind ⊢
  cases hbehind with
  | lexeme hlongest _ => exact Lexeme.munch_of_longest? hlongest

theorem Piece.Tiles.unread {first second : List Char} {c : Char}
    (h : Tiles (before ++ .unknown (first ++ c :: second) :: after) cs)
    {kind : TokenKind} {t : List Char} (hrule : Lexeme.Rule kind t) :
    ¬ t <+: cs.drop ((textOf before).length + first.length) := by
  have hbehind := h.behind
  rw [← List.drop_drop]
  generalize cs.drop (textOf before).length = left at hbehind ⊢
  cases hbehind with
  | @unknown _ rest _ _ hnone _ _ =>
      rw [List.append_assoc, List.drop_left]
      exact Lexeme.longest?_eq_none_iff.mp (hnone first c second rfl).2.2 kind t hrule

end Fronts

theorem covered_prefix (source : String) : Lexed.pieces source <+: placedPieces source := by
  rcases Nat.lt_or_ge LexError.limit (groups (placedPieces source)) with hmany | hfew
  · obtain ⟨-, entry, later, hsplit, -⟩ := Piece.beforeUnknown_of_lt hmany
    exact ⟨entry :: later, hsplit.symm⟩
  · have hall : Lexed.pieces source = placedPieces source := Piece.beforeUnknown_of_le hfew
    exact hall ▸ List.prefix_rfl

theorem tiles_covered (source : String) : exists later,
    Tiles ((Lexed.pieces source).map (·.2) ++ later) source.toList := by
  obtain ⟨later, hlater⟩ := covered_prefix source
  refine ⟨later.map (·.2), ?_⟩
  rw [← List.map_append, hlater, map_placedPieces]
  exact tiles_pieces source

/-- Lexemes with single spaces between them are read again as they are. -/
theorem lex_spaced {lexemes : List (TokenKind × List Char)}
    (hlexemes : forall entry, entry ∈ lexemes -> exists cs, Lexeme.Longest entry.1 entry.2 cs)
    {last : List (List Char)} (hlast : last = [] ∨ last = [[]]) {source : String}
    (hsource : source.toList = Piece.spaced lexemes last) :
    (lex source).errors = [] ∧ (lex source).tokens.map Token.lexeme =
      lexemes.map (fun e => (e.1, String.ofList e.2)) ++ [Token.endOfInput.lexeme] := by
  have htiles : Tiles (Piece.joinUnknown (Piece.cut source.toList)) (Piece.spaced lexemes last) :=
    hsource ▸ tiles_pieces source
  obtain ⟨hsame, hknown⟩ := htiles.of_spaced hlast hlexemes
  have hlex := lex_of_known hknown
  rwa [hsame] at hlex

theorem texts_of_lexemes {tokens : List Token} {lexemes : List (TokenKind × List Char)}
    {ends : List (TokenKind × String)}
    (h : tokens.map Token.lexeme =
      lexemes.map (fun e => (e.1, String.ofList e.2)) ++ ends) :
    tokens.map (·.text.toList) = lexemes.map (·.2) ++ ends.map (·.2.toList) := by
  have htexts := congrArg (List.map fun e : TokenKind × String => e.2.toList) h
  simpa [Token.lexeme, Function.comp_def] using htexts

/-- Every token is the longest lexeme at the front of what the lexer has not read before it,
and where it finds something unknown there is none.  A source without errors is read again
from the texts of its tokens with single spaces between them, whether or not the end of the
input is one of them. -/
theorem lex_longest_match (source : String) :
    (exists (covered : List (Pos × Piece)) (later : List Piece),
      Tiles (covered.map (·.2) ++ later) source.toList ∧
      (lex source).tokens = covered.filterMap Lexed.token? ++ [Token.endOfInput] ∧
      (lex source).errors = covered.filterMap Lexed.error? ∧
      (forall before pos kind text after, covered = before ++ (pos, .lexeme kind text) :: after ->
        Lexeme.Munch kind text (source.toList.drop (textOf (before.map (·.2))).length)) ∧
      (forall before pos first c second after,
        covered = before ++ (pos, .unknown (first ++ c :: second)) :: after ->
        forall kind t, Lexeme.Rule kind t ->
          ¬ t <+: source.toList.drop ((textOf (before.map (·.2))).length + first.length))) ∧
    ((lex source).errors = [] -> forall texts,
      texts = (lex source).tokens.map (·.text) ∨
        texts = (lex source).tokens.dropLast.map (·.text) ->
      (lex (" ".intercalate texts)).errors = [] ∧
      (lex (" ".intercalate texts)).tokens.map Token.lexeme =
        (lex source).tokens.map Token.lexeme) := by
  constructor
  · obtain ⟨later, htiles⟩ := tiles_covered source
    refine ⟨Lexed.pieces source, later, htiles, rfl, rfl, ?_, ?_⟩
    · intro before pos kind text after hsplit
      rw [hsplit, List.map_append, List.append_assoc] at htiles
      exact htiles.munch
    · intro before pos first c second after hsplit kind t hrule
      rw [hsplit, List.map_append, List.append_assoc] at htiles
      exact htiles.unread hrule
  · intro hnone texts htexts
    let lexemes := (Piece.joinUnknown (Piece.cut source.toList)).filterMap Piece.lexeme?
    have htokens : (lex source).tokens.map Token.lexeme =
        lexemes.map (fun e => (e.1, String.ofList e.2)) ++ [Token.endOfInput.lexeme] :=
      (lex_of_known (known_of_no_errors hnone)).2
    have hlexemes : forall entry, entry ∈ lexemes ->
        exists cs, Lexeme.Longest entry.1 entry.2 cs := by
      rintro ⟨kind, text⟩ hentry
      obtain ⟨piece, hpiece, hread⟩ := List.mem_filterMap.mp hentry
      cases piece with
      | skipped _ => cases hread
      | unknown _ => cases hread
      | lexeme _ _ =>
          cases hread
          exact (tiles_pieces source).longest_of_mem hpiece
    rw [htokens]
    rcases htexts with rfl | rfl
    · apply lex_spaced hlexemes (.inr rfl)
      rw [String.toList_intercalate, List.map_map]
      exact congrArg [' '].intercalate (texts_of_lexemes htokens)
    · have hfront : (lex source).tokens.dropLast.map Token.lexeme =
          lexemes.map (fun e => (e.1, String.ofList e.2)) ++ [] := by
        rw [List.map_dropLast, htokens, List.dropLast_concat, List.append_nil]
      apply lex_spaced hlexemes (.inl rfl)
      rw [String.toList_intercalate, List.map_map]
      exact congrArg [' '].intercalate (texts_of_lexemes hfront)

end Scriptlet
