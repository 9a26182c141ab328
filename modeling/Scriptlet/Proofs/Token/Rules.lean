import Scriptlet.Proofs.Token.Tiling

/-!
# Longest lexemes

The lexeme at the front of a text is the longest one that a rule accepts there, and a word
that is reserved is no name.
-/

namespace Scriptlet
namespace Lexeme

/-- The lexeme at the front of a text: no rule accepts a longer one, and the rule of names
gives way to any other that accepts the same text. -/
structure Longest (kind : TokenKind) (text cs : List Char) : Prop where
  front : text <+: cs
  rule : Rule kind text
  longest : forall other t, Rule other t -> t <+: cs -> t.length ≤ text.length
  preferred : forall other, Rule other text -> other = kind ∨ other = .name

/-- Longest match leaves no choice. -/
theorem Longest.unique {kind kind' : TokenKind} {text text' cs : List Char}
    (h : Longest kind text cs) (h' : Longest kind' text' cs) : kind = kind' ∧ text = text' := by
  have hlength : text.length = text'.length :=
    Nat.le_antisymm (h'.longest kind text h.rule h.front) (h.longest kind' text' h'.rule h'.front)
  have htext : text = text' := by
    have hprefix := List.prefix_of_prefix_length_le h.front h'.front (Nat.le_of_eq hlength)
    exact hprefix.eq_of_length hlength
  subst htext
  constructor
  · rcases h.preferred kind' h'.rule with hkind | hkind
    · exact hkind.symm
    · rcases h'.preferred kind h.rule with hkind' | hkind'
      · exact hkind'
      · rw [hkind, hkind']
  · rfl

/-!
# First characters
-/

theorem not_nameStart_of_digit {c : Char} (h : isDigit c = true) : isNameStart c = false := by
  simp only [isDigit, isNameStart, Bool.and_eq_true, decide_eq_true_eq, Bool.or_eq_false_iff,
    Bool.and_eq_false_iff, decide_eq_false_iff_not, beq_eq_false_iff_ne, ne_eq,
    Char.le_def, UInt32.le_iff_toNat_le] at h ⊢
  have hlow : (48 : Nat) ≤ c.val.toNat := h.1
  have hhigh : c.val.toNat ≤ 57 := h.2
  refine ⟨⟨.inl ?_, .inl ?_⟩, ?_⟩
  · show ¬ 97 ≤ c.val.toNat
    omega
  · show ¬ 65 ≤ c.val.toNat
    omega
  · intro hc
    subst hc
    exact absurd hhigh (by decide)

theorem reserved_words : forall entry, entry ∈ reserved ->
    entry.1.toList.head?.any isNameStart = true ∧ entry.1.toList.all isNameChar = true := by
  decide

theorem symbols_start : forall entry, entry ∈ symbols ->
    entry.1.head?.any (fun c => !isNameStart c && !isDigit c) = true := by
  decide

theorem Rule.sort {kind : TokenKind} {text : List Char} (h : Rule kind text) :
    exists c cs, text = c :: cs ∧
      ((isNameStart c = true ∧ (forall d, d ∈ text -> isNameChar d = true) ∧
          (kind = .name ∨ (String.ofList text, kind) ∈ reserved)) ∨
        (isNameStart c = false ∧ isDigit c = true ∧ Number kind text) ∨
        (isNameStart c = false ∧ isDigit c = false ∧ (text, kind) ∈ symbols)) := by
  cases h with
  | @word _ word hword =>
      obtain ⟨hstart, hall⟩ := reserved_words _ (word_iff.mp hword)
      cases htext : word.toList with
      | nil =>
          rw [htext] at hstart
          cases hstart
      | cons c cs =>
          rw [htext] at hstart hall
          refine ⟨c, cs, rfl, .inl ⟨hstart, List.all_eq_true.mp hall, .inr ?_⟩⟩
          rw [← htext, String.ofList_toList]
          exact word_iff.mp hword
  | symbol hsymbol =>
      have hstart := symbols_start _ (symbol_iff.mp hsymbol)
      cases text with
      | nil => cases hstart
      | cons c cs =>
          have hc : isNameStart c = false ∧ isDigit c = false := by simpa using hstart
          exact ⟨c, cs, rfl, .inr (.inr ⟨hc.1, hc.2, symbol_iff.mp hsymbol⟩)⟩
  | number hnumber =>
      have hdigit : exists c cs, text = c :: cs ∧ isDigit c = true := by
        cases hnumber with
        | int hdigits =>
            obtain ⟨c, cs, rfl⟩ := List.exists_cons_of_ne_nil hdigits.ne_nil
            exact ⟨c, cs, rfl, hdigits.all c List.mem_cons_self⟩
        | float hwhole _ _ =>
            obtain ⟨c, cs, rfl⟩ := List.exists_cons_of_ne_nil hwhole.ne_nil
            exact ⟨c, _, rfl, hwhole.all c List.mem_cons_self⟩
      obtain ⟨c, cs, rfl, hc⟩ := hdigit
      exact ⟨c, cs, rfl, .inr (.inl ⟨not_nameStart_of_digit hc, hc, hnumber⟩)⟩
  | @name c cs hstart hall =>
      refine ⟨c, cs, rfl, .inl ⟨isNameStart_iff.mpr hstart, ?_, .inl rfl⟩⟩
      intro d hd
      rcases List.mem_cons.mp hd with rfl | hd
      · exact isNameChar_iff.mpr (.inl hstart)
      · exact isNameChar_iff.mpr (hall d hd)

/-!
# Words
-/

theorem length_le_takeWhile {p : Char -> Bool} {t cs : List Char} (h : t <+: cs)
    (hall : forall c, c ∈ t -> p c = true) : t.length ≤ (cs.takeWhile p).length := by
  obtain ⟨rest, rfl⟩ := h
  rw [List.takeWhile_append_of_pos hall, List.length_append]
  exact Nat.le_add_right _ _

theorem reserved_kinds : forall entry, entry ∈ reserved ->
    reserved.lookup entry.1 = some entry.2 := by
  decide

theorem wordKind_of_reserved {text : List Char} {kind : TokenKind}
    (h : (String.ofList text, kind) ∈ reserved) : wordKind text = kind := by
  rw [wordKind, reserved_kinds _ h]
  rfl

theorem mem_reserved_of_lookup {word : String} {kind : TokenKind}
    (h : reserved.lookup word = some kind) : (word, kind) ∈ reserved := by
  obtain ⟨before, after, hsplit, -⟩ := List.lookup_eq_some_iff.mp h
  rw [hsplit]
  simp

theorem rule_wordKind {c : Char} {cs : List Char} (hc : isNameStart c = true)
    (hall : forall d, d ∈ cs -> isNameChar d = true) : Rule (wordKind (c :: cs)) (c :: cs) := by
  rw [wordKind]
  cases hlookup : reserved.lookup (String.ofList (c :: cs)) with
  | none => exact .name (isNameStart_iff.mp hc) fun d hd => isNameChar_iff.mp (hall d hd)
  | some kind =>
      have hrule := Rule.word (word_iff.mpr (mem_reserved_of_lookup hlookup))
      rwa [String.toList_ofList] at hrule

theorem longest_word {c : Char} (cs : List Char) (hc : isNameStart c = true) :
    Longest (wordKind ((c :: cs).takeWhile isNameChar)) ((c :: cs).takeWhile isNameChar)
      (c :: cs) := by
  have hchar : isNameChar c = true := by
    simp [isNameChar, hc]
  refine ⟨List.takeWhile_prefix isNameChar, ?_, ?_, ?_⟩
  · rw [List.takeWhile_cons_of_pos hchar]
    exact rule_wordKind hc (List.all_eq_true.mp List.all_takeWhile)
  · intro other t hrule hfront
    obtain ⟨d, ds, rfl, hsort⟩ := hrule.sort
    obtain ⟨rfl, -⟩ := List.cons_prefix_cons.mp hfront
    rcases hsort with ⟨-, hall, -⟩ | ⟨hd, -, -⟩ | ⟨hd, -, -⟩
    · exact length_le_takeWhile hfront hall
    · exact absurd hc (Bool.eq_false_iff.mp hd)
    · exact absurd hc (Bool.eq_false_iff.mp hd)
  · intro other hrule
    obtain ⟨d, ds, htext, hsort⟩ := hrule.sort
    rw [List.takeWhile_cons_of_pos hchar] at htext
    obtain ⟨rfl, -⟩ := List.cons_eq_cons.mp htext
    rcases hsort with ⟨-, -, hname | hreserved⟩ | ⟨hd, -, -⟩ | ⟨hd, -, -⟩
    · exact .inr hname
    · exact .inl (wordKind_of_reserved hreserved).symm
    · exact absurd hc (Bool.eq_false_iff.mp hd)
    · exact absurd hc (Bool.eq_false_iff.mp hd)

/-!
# Numbers
-/

theorem length_le_fractionOf {fraction cs : List Char} (h : '.' :: fraction <+: cs)
    (hfraction : Digits fraction) : ('.' :: fraction).length ≤ (fractionOf cs).length := by
  cases cs with
  | nil => exact absurd (List.prefix_nil.mp h) (List.cons_ne_nil _ _)
  | cons c cs =>
      obtain ⟨rfl, hfront⟩ := List.cons_prefix_cons.mp h
      have hlength := length_le_takeWhile hfront hfraction.all
      have hpositive := List.length_pos_iff.mpr hfraction.ne_nil
      rw [fractionOf, if_pos (by decide)]
      split
      · next hnone =>
          rw [hnone, List.length_nil] at hlength
          omega
      · rw [List.length_cons, List.length_cons]
        omega

theorem fractionOf_eq (cs : List Char) :
    fractionOf cs = [] ∨ exists fraction, fractionOf cs = '.' :: fraction ∧ Digits fraction := by
  cases cs with
  | nil => exact .inl rfl
  | cons c cs =>
      by_cases hc : c = '.'
      · subst hc
        rw [fractionOf, if_pos (by decide)]
        split
        · exact .inl rfl
        · next hne =>
            refine .inr ⟨_, rfl, digits_takeWhile ?_⟩
            intro hnil
            exact hne hnil
      · rw [fractionOf, if_neg (by simpa using hc)]
        exact .inl rfl

theorem signOf_digits {digits cs : List Char} (h : digits <+: cs) (hdigits : Digits digits) :
    signOf cs = [] := by
  obtain ⟨d, ds, rfl⟩ := List.exists_cons_of_ne_nil hdigits.ne_nil
  obtain ⟨rest, rfl⟩ := h
  have hd := hdigits.all d List.mem_cons_self
  rw [List.cons_append, signOf]
  apply if_neg
  intro hsign
  rw [Bool.or_eq_true, beq_iff_eq, beq_iff_eq] at hsign
  rcases hsign with rfl | rfl
  · exact absurd hd (by decide)
  · exact absurd hd (by decide)

theorem exponentOf_eq (cs : List Char) : exponentOf cs = [] ∨ Exponent (exponentOf cs) := by
  cases cs with
  | nil => exact .inl rfl
  | cons c cs =>
      by_cases hc : c = 'e' ∨ c = 'E'
      · rw [exponentOf, if_pos (by simpa using hc)]
        dsimp only
        split
        · exact .inl rfl
        · next hne =>
            have hdigits := digits_takeWhile hne
            right
            cases cs with
            | nil => exact .unsigned hc hdigits
            | cons d ds =>
                by_cases hd : d = '-' ∨ d = '+'
                · have hsign : signOf (d :: ds) = [d] := if_pos (by simpa using hd)
                  rw [hsign] at hdigits ⊢
                  exact .signed hc hd hdigits
                · have hsign : signOf (d :: ds) = [] := if_neg (by simpa using hd)
                  rw [hsign] at hdigits ⊢
                  exact .unsigned hc hdigits
      · rw [exponentOf, if_neg (by simpa using hc)]
        exact .inl rfl

theorem length_exponentOf {e : Char} {cs : List Char} (he : e = 'e' ∨ e = 'E')
    (hdigits : (cs.drop (signOf cs).length).takeWhile isDigit ≠ []) :
    (exponentOf (e :: cs)).length =
      1 + (signOf cs).length + ((cs.drop (signOf cs).length).takeWhile isDigit).length := by
  rw [exponentOf, if_pos (by simpa using he)]
  dsimp only
  split
  · next hnone => exact absurd hnone hdigits
  · rw [List.length_cons, List.length_append]
    omega

theorem length_le_exponentOf {exponent cs : List Char} (h : exponent <+: cs)
    (hexponent : Exponent exponent) : exponent.length ≤ (exponentOf cs).length := by
  cases hexponent with
  | @unsigned e digits he hdigits =>
      obtain ⟨rest, rfl⟩ := h
      have hfront : digits <+: digits ++ rest := List.prefix_append digits rest
      have hlength := length_le_takeWhile hfront hdigits.all
      have hpositive := List.length_pos_iff.mpr hdigits.ne_nil
      have hsign := signOf_digits hfront hdigits
      rw [List.cons_append, length_exponentOf he, hsign]
      · simp only [List.length_nil, List.drop_zero, List.length_cons]
        omega
      · rw [hsign]
        exact List.length_pos_iff.mp (Nat.lt_of_lt_of_le hpositive hlength)
  | @signed e sign digits he hsign hdigits =>
      obtain ⟨rest, rfl⟩ := h
      have hfront : digits <+: digits ++ rest := List.prefix_append digits rest
      have hlength := length_le_takeWhile hfront hdigits.all
      have hpositive := List.length_pos_iff.mpr hdigits.ne_nil
      have hsigned : signOf (sign :: digits ++ rest) = [sign] := if_pos (by simpa using hsign)
      rw [List.cons_append, length_exponentOf he, hsigned]
      · simp only [List.length_cons, List.length_nil, List.cons_append, List.drop_succ_cons,
          List.drop_zero]
        omega
      · rw [hsigned]
        exact List.length_pos_iff.mp (Nat.lt_of_lt_of_le hpositive hlength)

theorem takeWhile_whole {whole rest : List Char} (h : Digits whole) :
    (whole ++ '.' :: rest).takeWhile isDigit = whole := by
  rw [List.takeWhile_append_of_pos h.all, List.takeWhile_cons_of_neg (by decide),
    List.append_nil]

theorem number_numberOf {c : Char} (cs : List Char) (hc : isDigit c = true) :
    Number (numberOf (c :: cs)).1 (numberOf (c :: cs)).2 := by
  have hwhole : Digits ((c :: cs).takeWhile isDigit) := digits_takeWhile (by simp [hc])
  unfold numberOf
  dsimp only
  split
  · exact .int hwhole
  · next hne =>
      rcases fractionOf_eq ((c :: cs).drop ((c :: cs).takeWhile isDigit).length) with
        hnone | ⟨fraction, hfraction, hdigits⟩
      · exact absurd hnone hne
      · rw [hfraction]
        exact .float hwhole hdigits (exponentOf_eq _)

theorem Number.kind_eq {kind : TokenKind} {text : List Char} (h : Number kind text) :
    kind = if '.' ∈ text then .floatLit else .intLit := by
  cases h with
  | int hdigits =>
      rw [if_neg]
      intro hpoint
      exact absurd (hdigits.all '.' hpoint) (by decide)
  | float _ _ _ => simp

theorem fractionOf_exponent {fraction exponent : List Char} (hfraction : Digits fraction)
    (hexponent : Exponent exponent) (rest : List Char) :
    fractionOf ('.' :: fraction ++ (exponent ++ rest)) = '.' :: fraction := by
  have hstop : (fraction ++ (exponent ++ rest)).takeWhile isDigit = fraction := by
    rw [List.takeWhile_append_of_pos hfraction.all]
    have he : forall e : Char, e = 'e' ∨ e = 'E' -> ¬ isDigit e = true := by
      rintro e (rfl | rfl)
      · decide
      · decide
    cases hexponent with
    | unsigned hletter _ =>
        rw [List.cons_append, List.takeWhile_cons_of_neg (he _ hletter), List.append_nil]
    | signed hletter _ _ =>
        rw [List.cons_append, List.takeWhile_cons_of_neg (he _ hletter), List.append_nil]
  rw [List.cons_append, fractionOf, if_pos (by decide), hstop]
  cases fraction with
  | nil => exact absurd rfl hfraction.ne_nil
  | cons d ds => rfl

theorem length_numberOf {cs : List Char} (h : fractionOf (cs.drop (cs.takeWhile isDigit).length) ≠ []) :
    (numberOf cs).2.length = (cs.takeWhile isDigit).length +
      (fractionOf (cs.drop (cs.takeWhile isDigit).length)).length +
      (exponentOf (cs.drop ((cs.takeWhile isDigit).length +
        (fractionOf (cs.drop (cs.takeWhile isDigit).length)).length))).length := by
  unfold numberOf
  dsimp only
  split
  · next hnone => exact absurd hnone h
  · rw [List.length_append, List.length_append]

theorem length_le_numberOf {kind : TokenKind} {t cs : List Char} (h : t <+: cs)
    (hnumber : Number kind t) : t.length ≤ (numberOf cs).2.length := by
  cases hnumber with
  | int hdigits =>
      have hwhole := length_le_takeWhile h hdigits.all
      by_cases hfraction : fractionOf (cs.drop (cs.takeWhile isDigit).length) = []
      · unfold numberOf
        dsimp only
        rw [hfraction]
        exact hwhole
      · rw [length_numberOf hfraction]
        omega
  | @float whole fraction exponent hwhole hfraction hexponent =>
      obtain ⟨rest, rfl⟩ := h
      have hcs : whole ++ '.' :: fraction ++ exponent ++ rest =
          whole ++ ('.' :: fraction ++ (exponent ++ rest)) := by
        simp
      have htake : (whole ++ ('.' :: fraction ++ (exponent ++ rest))).takeWhile isDigit = whole :=
        takeWhile_whole hwhole
      have hfound := length_le_fractionOf
        (List.prefix_append ('.' :: fraction) (exponent ++ rest)) hfraction
      have hne : fractionOf ('.' :: fraction ++ (exponent ++ rest)) ≠ [] := by
        intro hnone
        rw [hnone] at hfound
        exact absurd hfound (Nat.not_succ_le_zero _)
      rw [hcs, length_numberOf (by rwa [htake, List.drop_left]), htake, List.drop_left,
        List.length_append, List.length_append]
      rcases hexponent with rfl | hexponent
      · rw [List.length_nil]
        omega
      · -- An exponent ends the digits of the fraction, so that it is found behind them.
        have hbehind : (whole ++ ('.' :: fraction ++ (exponent ++ rest))).drop
            (whole.length + ('.' :: fraction).length) = exponent ++ rest := by
          rw [← List.drop_drop, List.drop_left, List.drop_left]
        rw [fractionOf_exponent hfraction hexponent rest, hbehind]
        have hexponent := length_le_exponentOf (List.prefix_append exponent rest) hexponent
        omega

theorem longest_number {c : Char} (cs : List Char) (hc : isDigit c = true) :
    Longest (numberOf (c :: cs)).1 (numberOf (c :: cs)).2 (c :: cs) := by
  have hnumber := number_numberOf cs hc
  have hname : isNameStart c = false := not_nameStart_of_digit hc
  refine ⟨prefix_numberOf _, .number hnumber, ?_, ?_⟩
  · intro other t hrule hfront
    obtain ⟨d, ds, rfl, hsort⟩ := hrule.sort
    obtain ⟨rfl, -⟩ := List.cons_prefix_cons.mp hfront
    rcases hsort with ⟨hd, -, -⟩ | ⟨-, -, hother⟩ | ⟨-, hd, -⟩
    · exact absurd hd (Bool.eq_false_iff.mp hname)
    · exact length_le_numberOf hfront hother
    · exact absurd hc (Bool.eq_false_iff.mp hd)
  · intro other hrule
    obtain ⟨d, ds, htext, hsort⟩ := hrule.sort
    have hfront := prefix_numberOf (c :: cs)
    rw [htext] at hfront
    obtain ⟨rfl, -⟩ := List.cons_prefix_cons.mp hfront
    rcases hsort with ⟨hd, -, -⟩ | ⟨-, -, hother⟩ | ⟨-, hd, -⟩
    · exact absurd hd (Bool.eq_false_iff.mp hname)
    · exact .inl (hother.kind_eq.trans hnumber.kind_eq.symm)
    · exact absurd hc (Bool.eq_false_iff.mp hd)

/-!
# Symbols
-/

theorem symbols_sorted : symbols.Pairwise fun a b => b.1.length ≤ a.1.length := by
  decide

theorem symbols_kinds : forall a, a ∈ symbols -> forall b, b ∈ symbols -> a.1 = b.1 -> a.2 = b.2 := by
  decide

theorem longest_symbol {c : Char} {cs text : List Char} {kind : TokenKind}
    (hname : isNameStart c = false) (hdigit : isDigit c = false)
    (h : symbolOf (c :: cs) = some (kind, text)) : Longest kind text (c :: cs) := by
  -- Longer symbols come first, so the first one that stands at the front is the longest.
  obtain ⟨entry, hfind, hentry⟩ := Option.map_eq_some_iff.mp h
  cases hentry
  obtain ⟨hlead, before, after, hsplit, hbefore⟩ := List.find?_eq_some_iff_append.mp hfind
  have hmem : entry ∈ symbols := List.mem_of_find?_eq_some hfind
  refine ⟨List.isPrefixOf_iff_prefix.mp hlead, .symbol (symbol_iff.mpr hmem), ?_, ?_⟩
  · intro other t hrule hfront
    obtain ⟨d, ds, rfl, hsort⟩ := hrule.sort
    obtain ⟨rfl, -⟩ := List.cons_prefix_cons.mp hfront
    rcases hsort with ⟨hd, -, -⟩ | ⟨-, hd, -⟩ | ⟨-, -, hsymbol⟩
    · exact absurd hd (Bool.eq_false_iff.mp hname)
    · exact absurd hd (Bool.eq_false_iff.mp hdigit)
    · have hsorted := symbols_sorted
      rw [hsplit] at hsymbol hsorted
      rcases List.mem_append.mp hsymbol with hearlier | hlater
      · have hnot := hbefore _ hearlier
        rw [List.isPrefixOf_iff_prefix.mpr hfront] at hnot
        cases hnot
      · rcases List.mem_cons.mp hlater with hsame | hlater
        · exact Nat.le_of_eq (congrArg (·.1.length) hsame)
        · exact List.rel_of_pairwise_cons (List.pairwise_append.mp hsorted).2.1 hlater
  · intro other hrule
    obtain ⟨d, ds, htext, hsort⟩ := hrule.sort
    have hfront := List.isPrefixOf_iff_prefix.mp hlead
    rw [htext] at hfront
    obtain ⟨rfl, -⟩ := List.cons_prefix_cons.mp hfront
    rcases hsort with ⟨hd, -, -⟩ | ⟨-, hd, -⟩ | ⟨-, -, hsymbol⟩
    · exact absurd hd (Bool.eq_false_iff.mp hname)
    · exact absurd hd (Bool.eq_false_iff.mp hdigit)
    · exact .inl (symbols_kinds _ hsymbol _ hmem rfl)

/-!
# Longest match
-/

theorem longest_of_longest? {cs text : List Char} {kind : TokenKind}
    (h : longest? cs = some (kind, text)) : Longest kind text cs := by
  cases cs with
  | nil => cases h
  | cons c cs =>
      rw [longest?] at h
      by_cases hname : isNameStart c = true
      · rw [if_pos hname] at h
        cases h
        exact longest_word cs hname
      · rw [if_neg hname] at h
        by_cases hdigit : isDigit c = true
        · rw [if_pos hdigit] at h
          have hnumber : numberOf (c :: cs) = (kind, text) := Option.some.inj h
          have hlongest := longest_number cs hdigit
          rwa [hnumber] at hlongest
        · rw [if_neg hdigit] at h
          exact longest_symbol (Bool.eq_false_iff.mpr hname) (Bool.eq_false_iff.mpr hdigit) h

theorem longest?_ne_none {cs t : List Char} {kind : TokenKind} (hrule : Rule kind t)
    (hfront : t <+: cs) : longest? cs ≠ none := by
  obtain ⟨c, t, rfl, hsort⟩ := hrule.sort
  obtain ⟨rest, rfl⟩ := hfront
  rw [List.cons_append, longest?]
  rcases hsort with ⟨hname, -, -⟩ | ⟨hname, hdigit, -⟩ | ⟨hname, hdigit, hsymbol⟩
  · rw [if_pos hname]
    exact Option.some_ne_none _
  · rw [if_neg (Bool.eq_false_iff.mp hname), if_pos hdigit]
    exact Option.some_ne_none _
  · rw [if_neg (Bool.eq_false_iff.mp hname), if_neg (Bool.eq_false_iff.mp hdigit)]
    intro hnone
    have hnot := List.find?_eq_none.mp (Option.map_eq_none_iff.mp hnone) _ hsymbol
    exact hnot (List.isPrefixOf_iff_prefix.mpr (List.prefix_append (c :: t) rest))

/-- The reader of lexemes is longest match. -/
theorem longest?_eq_some_iff {cs text : List Char} {kind : TokenKind} :
    longest? cs = some (kind, text) <-> Longest kind text cs := by
  constructor
  · exact longest_of_longest?
  · intro h
    cases hfound : longest? cs with
    | none => exact absurd hfound (longest?_ne_none h.rule h.front)
    | some answer =>
        obtain ⟨rfl, rfl⟩ := (longest_of_longest? hfound).unique h
        rfl

example : longest? "1.5e+x".toList = some (.floatLit, "1.5".toList) := by
  decide

theorem longest?_eq_none_iff {cs : List Char} :
    longest? cs = none <-> forall kind t, Rule kind t -> ¬ t <+: cs := by
  constructor
  · intro hnone kind t hrule hfront
    exact longest?_ne_none hrule hfront hnone
  · intro h
    cases hfound : longest? cs with
    | none => rfl
    | some answer =>
        have hlongest := longest_of_longest? hfound
        exact absurd hlongest.front (h answer.1 answer.2 hlongest.rule)

end Lexeme
end Scriptlet
