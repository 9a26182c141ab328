import Scriptlet.Parser.State
import Scriptlet.Proofs.Grammar.Exactness

/-!
# Printing expressions

A tree is printed as kinds and texts of tokens, with parentheses around a part only where
its place asks for a tighter level than it has.  No list of tokens that derives the tree is
shorter, and whatever the positions of the tokens, parsing them gives the tree back and
stops behind them.
-/

namespace Scriptlet

abbrev Word := TokenKind × String

def Token.word (t : Token) : Word :=
  (t.kind, t.text)

theorem Token.kind_eq {t : Token} {kind : TokenKind} {text : String}
    (h : t.word = (kind, text)) : t.kind = kind :=
  congrArg Prod.fst h

/-!
# Trees without places
-/

mutual

def Expr.unplaced : Expr -> Expr
  | .literal _ value => .literal default value
  | .const _ id => .const default id
  | .var _ id => .var default id
  | .unary _ op operand => .unary default op operand.unplaced
  | .binary _ op left right => .binary default op left.unplaced right.unplaced
  | .call _ callee args => .call default callee (Expr.listUnplaced args)

def Expr.listUnplaced : List Expr -> List Expr
  | [] => []
  | e :: rest => e.unplaced :: Expr.listUnplaced rest

end

@[simp] theorem Expr.unplaced_withPos (pos : Pos) (e : Expr) :
    (e.withPos pos).unplaced = e.unplaced := by
  cases e <;> simp [Expr.withPos, Expr.unplaced]

theorem Expr.length_listUnplaced (args : List Expr) :
    (Expr.listUnplaced args).length = args.length := by
  induction args with
  | nil => rfl
  | cons e rest ih => simp [Expr.listUnplaced, ih]

/-!
# Printing
-/

def Expr.level : Expr -> Level
  | .unary _ _ _ => .unary
  | .binary _ op _ _ => op.level
  | _ => .operand

def guarded (level : Level) (e : Expr) (words : List Word) : List Word :=
  if e.level.rank < level.rank then (.openParen, "(") :: (words ++ [(.closeParen, ")")])
  else words

structure Spelling where
  literal : Value -> Word
  const : ConstId -> String
  var : VarId -> String
  function : FunId -> String

namespace Spelling

mutual

def words (spelling : Spelling) : Expr -> List Word
  | .literal _ value => [spelling.literal value]
  | .const _ id => [(.name, spelling.const id)]
  | .var _ id => [(.name, spelling.var id)]
  | .unary _ op operand =>
      (op.token, op.symbol) :: guarded .unary operand (spelling.words operand)
  | .binary _ op left right =>
      guarded op.level.left left (spelling.words left) ++
        (op.token, op.symbol) :: guarded op.level.right right (spelling.words right)
  | .call _ callee args =>
      (.name, spelling.function callee) :: (.openParen, "(") ::
        (spelling.listWords args ++ [(.closeParen, ")")])

def listWords (spelling : Spelling) : List Expr -> List Word
  | [] => []
  | e :: rest =>
      match rest with
      | [] => spelling.words e
      | _ :: _ => spelling.words e ++ (.comma, ",") :: spelling.listWords rest

end

mutual

/-- What the tree holds is read back from its spelling: literals have their values, names
stand for what the tree says, and calls have the right number of arguments. -/
def Reads (spelling : Spelling) (names : Names) : Expr -> Prop
  | .literal _ value => forall t : Token, t.word = spelling.literal value ->
      Parse.literalValue? t = some value
  | .const _ id => exists b, names.find (spelling.const id) = some b ∧
      b.category = .const ∧ b.id = id
  | .var _ id => exists b, names.find (spelling.var id) = some b ∧
      b.category = .var ∧ b.id = id
  | .unary _ _ operand => spelling.Reads names operand
  | .binary _ _ left right => spelling.Reads names left ∧ spelling.Reads names right
  | .call _ callee args => (exists b, names.find (spelling.function callee) = some b ∧
      b.category = .function ∧ b.id = callee ∧
      (names.program.function callee).result = b.type ∧
      args.length = (names.program.function callee).params.length) ∧
      spelling.ListReads names args

def ListReads (spelling : Spelling) (names : Names) : List Expr -> Prop
  | [] => True
  | e :: rest => spelling.Reads names e ∧ spelling.ListReads names rest

end

/-!
# What is printed derives the tree
-/

variable {spelling : Spelling} {names : Names}

theorem exists_guarded {e : Expr} {words : List Word} {level : Level}
    (hwords : forall u : List Token, u.map Token.word = words ->
      exists e', Derives names e.level u e' ∧ e'.unplaced = e.unplaced)
    {u : List Token} (hu : u.map Token.word = guarded level e words) :
    exists e', Derives names level u e' ∧ e'.unplaced = e.unplaced := by
  unfold guarded at hu
  split at hu
  · obtain ⟨opening, behind, rfl, hopening, hbehind⟩ := List.map_eq_cons_iff.mp hu
    obtain ⟨inner, last, rfl, hinner, hlast⟩ := List.map_eq_append_iff.mp hbehind
    obtain ⟨closing, rfl, hclosing⟩ := List.map_eq_singleton_iff.mp hlast
    obtain ⟨e', he', hsame⟩ := hwords inner hinner
    have hgroup := Derives.group (Token.kind_eq hopening) (he'.weaken (Nat.zero_le _))
      (Token.kind_eq hclosing)
    exact ⟨_, hgroup.weaken level.rank_le_operand, by simpa using hsame⟩
  · rename_i hrank
    obtain ⟨e', he', hsame⟩ := hwords u hu
    exact ⟨e', he'.weaken (Nat.le_of_not_lt hrank), hsame⟩

mutual

theorem exists_of_words : forall e : Expr, spelling.Reads names e -> forall u : List Token,
    u.map Token.word = spelling.words e ->
    exists e', Derives names e.level u e' ∧ e'.unplaced = e.unplaced
  | .literal _ value, hreads, u, hu => by
      obtain ⟨t, rfl, ht⟩ := List.map_eq_singleton_iff.mp hu
      exact ⟨_, .literal (hreads t ht), rfl⟩
  | .const _ id, hreads, u, hu => by
      obtain ⟨t, rfl, ht⟩ := List.map_eq_singleton_iff.mp hu
      obtain ⟨b, hfind, hcategory, rfl⟩ := hreads
      obtain ⟨hkind, htext⟩ := Prod.mk.inj ht
      exact ⟨_, .const hkind (htext ▸ hfind) hcategory, rfl⟩
  | .var _ id, hreads, u, hu => by
      obtain ⟨t, rfl, ht⟩ := List.map_eq_singleton_iff.mp hu
      obtain ⟨b, hfind, hcategory, rfl⟩ := hreads
      obtain ⟨hkind, htext⟩ := Prod.mk.inj ht
      exact ⟨_, .var hkind (htext ▸ hfind) hcategory, rfl⟩
  | .unary _ op operand, hreads, u, hu => by
      obtain ⟨t, v, rfl, ht, hv⟩ := List.map_eq_cons_iff.mp hu
      obtain ⟨e', he', hsame⟩ := exists_guarded (exists_of_words operand hreads) hv
      exact ⟨_, .unary (Token.kind_eq ht) he', by simp [Expr.unplaced, hsame]⟩
  | .binary _ op left right, hreads, u, hu => by
      obtain ⟨v, behind, rfl, hv, hbehind⟩ := List.map_eq_append_iff.mp hu
      obtain ⟨t, w, rfl, ht, hw⟩ := List.map_eq_cons_iff.mp hbehind
      obtain ⟨l, hl, hleft⟩ := exists_guarded (exists_of_words left hreads.1) hv
      obtain ⟨r, hr, hright⟩ := exists_guarded (exists_of_words right hreads.2) hw
      exact ⟨_, .binary rfl (Token.kind_eq ht) hl hr, by simp [Expr.unplaced, hleft, hright]⟩
  | .call _ callee args, hreads, u, hu => by
      obtain ⟨t, behind, rfl, ht, hbehind⟩ := List.map_eq_cons_iff.mp hu
      obtain ⟨opening, behind, rfl, hopening, hbehind⟩ := List.map_eq_cons_iff.mp hbehind
      obtain ⟨inner, last, rfl, hinner, hlast⟩ := List.map_eq_append_iff.mp hbehind
      obtain ⟨closing, rfl, hclosing⟩ := List.map_eq_singleton_iff.mp hlast
      obtain ⟨⟨b, hfind, hcategory, rfl, hresult, harity⟩, hargs⟩ := hreads
      obtain ⟨args', ⟨parts, hseparated, hparts, rfl⟩, hsame⟩ :=
        exists_of_listWords args hargs inner hinner
      obtain ⟨hkind, htext⟩ := Prod.mk.inj ht
      have hlength := congrArg List.length hsame
      simp only [Expr.length_listUnplaced, List.length_map] at hlength
      exact ⟨_, .call hkind (htext ▸ hfind) hcategory hresult (Token.kind_eq hopening)
        hseparated hparts (Token.kind_eq hclosing) (hlength.trans harity),
        by simp [Expr.unplaced, hsame]⟩

theorem exists_of_listWords : forall args : List Expr, spelling.ListReads names args ->
    forall u : List Token, u.map Token.word = spelling.listWords args ->
    exists args', DerivesArgs names u args' ∧
      Expr.listUnplaced args' = Expr.listUnplaced args
  | [], _, u, hu => by
      obtain rfl := List.map_eq_nil_iff.mp hu
      exact ⟨[], .nil, rfl⟩
  | [e], hreads, u, hu => by
      obtain ⟨e', he', hsame⟩ := exists_of_words e hreads.1 u hu
      exact ⟨[e'], .single (he'.weaken (Nat.zero_le _)), by simp [Expr.listUnplaced, hsame]⟩
  | e :: next :: rest, hreads, u, hu => by
      obtain ⟨v, behind, rfl, hv, hbehind⟩ := List.map_eq_append_iff.mp hu
      obtain ⟨comma, w, rfl, hcomma, hw⟩ := List.map_eq_cons_iff.mp hbehind
      obtain ⟨e', he', hsame⟩ := exists_of_words e hreads.1 v hv
      obtain ⟨args', hargs', hrest⟩ := exists_of_listWords (next :: rest) hreads.2 w hw
      have hne : args' ≠ [] := by
        rintro rfl
        cases hrest
      exact ⟨e' :: args', .cons (he'.weaken (Nat.zero_le _)) (Token.kind_eq hcomma) hargs' hne,
        by simp [Expr.listUnplaced, hsame, hrest]⟩

end

/-!
# Nothing shorter derives the tree
-/

theorem guarded_self {e : Expr} {level : Level} (h : e.level = level) (words : List Word) :
    guarded level e words = words :=
  if_neg (h ▸ Nat.lt_irrefl _)

theorem guarded_comparison (e : Expr) (words : List Word) :
    guarded .comparison e words = words :=
  if_neg (Nat.not_lt_zero _)

theorem length_guarded (level : Level) (e : Expr) (words : List Word) :
    (guarded level e words).length =
      words.length + if e.level.rank < level.rank then 2 else 0 := by
  unfold guarded
  split <;> simp

theorem length_guarded_le {level next : Level} (h : level.rank ≤ next.rank) (e : Expr)
    (words : List Word) : (guarded level e words).length ≤ (guarded next e words).length := by
  rw [length_guarded, length_guarded]
  split <;> split <;> omega

theorem words_withPos (spelling : Spelling) (pos : Pos) (e : Expr) :
    spelling.words (e.withPos pos) = spelling.words e := by
  cases e <;> simp [Expr.withPos, words]

theorem length_listWords_le (spelling : Spelling) : forall {parts : List (List Token × Expr)}
    {u : List Token}, Separated (parts.map (·.1)) u ->
    (forall part, part ∈ parts ->
      (guarded .comparison part.2 (spelling.words part.2)).length ≤ part.1.length) ->
    (spelling.listWords (parts.map (·.2))).length ≤ u.length
  | [], _, .nil, _ => Nat.le_refl 0
  | [part], _, .single, hparts => by
      have hpart := hparts part List.mem_cons_self
      rwa [guarded_comparison] at hpart
  | part :: next :: rest, _, .cons _ hseparated, hparts => by
      have hpart := hparts part List.mem_cons_self
      have hrest := @length_listWords_le spelling (next :: rest) _ hseparated
        fun other hother => hparts other (List.mem_cons_of_mem _ hother)
      rw [guarded_comparison] at hpart
      simp only [List.map_cons, listWords, List.length_append, List.length_cons] at hrest ⊢
      omega

theorem length_words_le (spelling : Spelling) {level : Level} {u : List Token} {e : Expr}
    (h : Derives names level u e) :
    (guarded level e (spelling.words e)).length ≤ u.length := by
  induction h with
  | tighter hnext _ ih =>
      have hrank := Level.rank_next hnext
      exact Nat.le_trans (length_guarded_le (by omega) _ _) ih
  | binary hlevel _ _ _ ihl ihr =>
      subst hlevel
      rw [guarded_self (by rfl)]
      simp only [words, List.length_append, List.length_cons]
      omega
  | unary _ _ ih =>
      rw [guarded_self (by rfl)]
      simp only [words, List.length_cons]
      omega
  | literal _ | const _ _ _ | var _ _ _ =>
      rw [guarded_self (by rfl)]
      exact Nat.le_refl 1
  | call _ _ _ _ _ hseparated _ _ _ ih =>
      have hargs := length_listWords_le spelling hseparated ih
      rw [guarded_self (by rfl)]
      simp only [words, List.length_append, List.length_cons, List.length_nil]
      omega
  | @group _ _ u e _ _ _ ih =>
      rw [length_guarded, words_withPos]
      rw [guarded_comparison] at ih
      simp only [List.length_append, List.length_cons, List.length_nil]
      split <;> omega

end Spelling

/-!
# Reading expressions
-/

theorem Parse.withNames_eq {α : Type} (p : Names -> TokenParse α) (s : ParseState) :
    Parse.withNames p s = Parse.onTokens (p s.names) s :=
  rfl

theorem Parse.withNames_eq_ok {α : Type} {p : Names -> TokenParse α} {s s' : ParseState}
    {a : α} : Parse.withNames p s = .ok (a, s') <->
      exists rest, p s.names s.tokens = .ok (a, rest) ∧ s' = { s with tokens := rest } := by
  rw [Parse.withNames_eq, Parse.onTokens]
  cases p s.names s.tokens with
  | error e => exact iff_of_false (fun h => by cases h) (fun ⟨_, h, _⟩ => by cases h)
  | ok x =>
      constructor
      · intro h
        cases h
        exact ⟨x.2, rfl, rfl⟩
      · rintro ⟨rest, h, rfl⟩
        cases h
        rfl

theorem Parse.withNames_of_error {α : Type} {p : Names -> TokenParse α} {s : ParseState}
    {error : ParseError} (h : p s.names s.tokens = .error error) :
    Parse.withNames p s = .error error := by
  rw [Parse.withNames_eq, Parse.onTokens, h]

/-- Reading an expression takes the tokens that derive it and changes nothing else.  What is
printed for a tree, and nothing shorter, is read as the tree up to its positions; and a
second comparison operator behind a comparison is always an error at its place. -/
theorem expression_follows_grammar (s : ParseState) :
    (forall e s', Parse.withNames Parse.expression s = .ok (e, s') <->
      exists u rest, s.tokens = u ++ rest ∧ s' = { s with tokens := rest } ∧
        Derives s.names .comparison u e ∧
        ¬ Level.comparison.Continues (frontToken rest).kind) ∧
    (forall (spelling : Spelling) (e : Expr) (u rest : List Token),
      spelling.Reads s.names e -> s.tokens = u ++ rest ->
      u.map Token.word = spelling.words e ->
      ¬ Level.comparison.Continues (frontToken rest).kind ->
      exists e', e'.unplaced = e.unplaced ∧
        Parse.withNames Parse.expression s = .ok (e', { s with tokens := rest })) ∧
    (forall (spelling : Spelling) (e : Expr) (u : List Token),
      Derives s.names .comparison u e -> (spelling.words e).length ≤ u.length) ∧
    (forall (op op' : BinaryOp) (t t' : Token) (u v rest : List Token) (left right : Expr),
      op.level = .comparison -> t.kind = op.token ->
      op'.level = .comparison -> t'.kind = op'.token ->
      Derives s.names .additive u left -> Derives s.names .additive v right ->
      s.tokens = u ++ t :: (v ++ t' :: rest) ->
      Parse.withNames Parse.expression s =
        .error { cause := .chainedComparison, pos := some t'.pos }) := by
  refine ⟨?_, ?_, ?_, ?_⟩
  · intro e s'
    rw [Parse.withNames_eq_ok]
    constructor
    · rintro ⟨rest, h, rfl⟩
      obtain ⟨u, hsplit, hu, hrest⟩ := (Parse.expression_takes _ _ _ _).mp h
      exact ⟨u, rest, hsplit, rfl, hu, hrest⟩
    · rintro ⟨u, rest, hsplit, rfl, hu, hrest⟩
      exact ⟨rest, (Parse.expression_takes _ _ _ _).mpr ⟨u, hsplit, hu, hrest⟩, rfl⟩
  · intro spelling e u rest hreads hsplit hwords hrest
    obtain ⟨e', he', hsame⟩ := Spelling.exists_of_words e hreads u hwords
    have h := (Parse.expression_takes s.names s.tokens e' rest).mpr
      ⟨u, hsplit, he'.weaken (Nat.zero_le _), hrest⟩
    exact ⟨e', hsame, Parse.withNames_eq_ok.mpr ⟨rest, h, rfl⟩⟩
  · intro spelling e u hu
    have h := Spelling.length_words_le spelling hu
    rwa [Spelling.guarded_comparison] at h
  · intro op op' t t' u v rest left right hlevel ht hlevel' ht' hu hv hsplit
    apply Parse.withNames_of_error
    rw [hsplit]
    exact Parse.expression_chained hlevel hlevel' ht ht' hu hv rest

def digitSpelling : Spelling where
  literal
    | .int 2 => (.intLit, "2")
    | _ => (.intLit, "1")
  const _ := ""
  var _ := ""
  function _ := ""

def signedPower : List Token :=
  [⟨⟨1, 1⟩, .minus, "-"⟩, ⟨⟨1, 2⟩, .intLit, "2"⟩, ⟨⟨1, 4⟩, .caret, "^"⟩, ⟨⟨1, 6⟩, .minus, "-"⟩,
    ⟨⟨1, 7⟩, .intLit, "1"⟩]

def twoComparisons : List Token :=
  [⟨⟨1, 1⟩, .intLit, "1"⟩, ⟨⟨1, 3⟩, .less, "<"⟩, ⟨⟨1, 5⟩, .intLit, "2"⟩, ⟨⟨1, 7⟩, .less, "<"⟩,
    ⟨⟨1, 9⟩, .intLit, "1"⟩]

theorem int64?_one : Reading.int64? "1" = some 1 := by
  decide +kernel

theorem int64?_two : Reading.int64? "2" = some 2 := by
  decide +kernel

theorem literalValue?_digit (n : Int64) (hn : n = 1 ∨ n = 2) (t : Token)
    (ht : t.word = digitSpelling.literal (.int n)) :
    Parse.literalValue? t = some (.int n) := by
  rcases t with ⟨pos, kind, text⟩
  rcases hn with rfl | rfl
  · obtain ⟨rfl, rfl⟩ := Prod.mk.inj ht
    exact congrArg (Option.map Value.int) int64?_one
  · obtain ⟨rfl, rfl⟩ := Prod.mk.inj ht
    exact congrArg (Option.map Value.int) int64?_two

theorem expression_follows_grammar_signs :
    (exists e, e.unplaced = .binary default .pow (.unary default .neg (.literal default (.int 2)))
        (.unary default .neg (.literal default (.int 1))) ∧
      Parse.withNames Parse.expression (.ofTokens signedPower) = .ok (e, .ofTokens [])) ∧
    Parse.withNames Parse.expression (.ofTokens twoComparisons) =
      .error { cause := .chainedComparison, pos := some ⟨1, 7⟩ } := by
  constructor
  · have hreads := And.intro (literalValue?_digit 2 (.inr rfl)) (literalValue?_digit 1 (.inl rfl))
    exact (expression_follows_grammar (.ofTokens signedPower)).2.1 digitSpelling
      (.binary default .pow (.unary default .neg (.literal default (.int 2)))
        (.unary default .neg (.literal default (.int 1))))
      signedPower [] hreads rfl rfl (Level.not_continues_of_ne fun op => op.token_ne_end)
  · have hdigit : forall n, n = 1 ∨ n = 2 -> forall t : Token,
        t.word = digitSpelling.literal (.int n) ->
        Derives (ParseState.names (.ofTokens twoComparisons)) .additive [t]
          (.literal t.pos (.int n)) :=
      fun n hn t ht => (Derives.literal (literalValue?_digit n hn t ht)).weaken (by decide)
    exact (expression_follows_grammar (.ofTokens twoComparisons)).2.2.2 .less .less _ _ _ _ _ _ _
      rfl rfl rfl rfl (hdigit 1 (.inl rfl) ⟨⟨1, 1⟩, .intLit, "1"⟩ rfl)
      (hdigit 2 (.inr rfl) ⟨⟨1, 5⟩, .intLit, "2"⟩ rfl) rfl

end Scriptlet
