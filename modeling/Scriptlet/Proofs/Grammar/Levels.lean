import Scriptlet.Proofs.Grammar.Derivations

/-!
# The levels of the parser

Each level of the parser takes from the front exactly what the grammar derives at the
level, up to a token that would make more of it, if the parser of the level above it does.
-/

namespace Scriptlet
namespace Parse

variable {α β : Type} {names : Names}

/-!
# Steps of a parser
-/

theorem bind_eq_ok {p : TokenParse α} {f : α -> TokenParse β} {tokens rest : List Token}
    {b : β} : (p >>= f) tokens = .ok (b, rest) <->
      exists a mid, p tokens = .ok (a, mid) ∧ f a mid = .ok (b, rest) := by
  change (p tokens >>= fun x => f x.1 x.2) = .ok (b, rest) <-> _
  cases p tokens with
  | error e =>
      exact iff_of_false (fun h => by cases h) (fun h => by obtain ⟨_, _, h, _⟩ := h; cases h)
  | ok x =>
      constructor
      · exact fun h => ⟨x.1, x.2, rfl, h⟩
      · rintro ⟨a, mid, hx, h⟩
        cases hx
        exact h

theorem bind_of_ok {p : TokenParse α} {tokens mid : List Token} {a : α}
    (hp : p tokens = .ok (a, mid)) (f : α -> TokenParse β) : (p >>= f) tokens = f a mid := by
  change (p tokens >>= fun x => f x.1 x.2) = f a mid
  rw [hp]
  rfl

theorem current_bind (f : Token -> TokenParse β) (tokens : List Token) :
    (current >>= f) tokens = f (frontToken tokens) tokens :=
  rfl

theorem currentKind_bind (f : TokenKind -> TokenParse β) (tokens : List Token) :
    (currentKind >>= f) tokens = f (frontToken tokens).kind tokens :=
  rfl

theorem advance_bind {t : Token} {kind : TokenKind} (ht : t.kind = kind)
    (hkind : kind ≠ .endOfInput) (f : Token -> TokenParse β) (rest : List Token) :
    (advance >>= f) (t :: rest) = f t rest := by
  change f t (dropFront (t :: rest)) = f t rest
  rw [dropFront_cons ht hkind]

theorem expect_eq_ok {kind : TokenKind} (hkind : kind ≠ .endOfInput) {tokens rest : List Token}
    {t : Token} : expect kind tokens = .ok (t, rest) <-> tokens = t :: rest ∧ t.kind = kind := by
  change (if (frontToken tokens).kind = kind then advance
    else failExpected (.token kind) : TokenParse Token) tokens = _ <-> _
  by_cases hfront : (frontToken tokens).kind = kind
  · obtain ⟨t', tail, rfl, ht'⟩ := exists_front hfront hkind
    rw [if_pos hfront]
    change Except.ok (t', dropFront (t' :: tail)) = _ <-> _
    rw [dropFront_cons ht' hkind]
    constructor
    · intro h
      cases h
      exact ⟨rfl, ht'⟩
    · rintro ⟨h, _⟩
      cases h
      rfl
  · rw [if_neg hfront]
    refine iff_of_false (fun h => by cases h) ?_
    rintro ⟨rfl, ht⟩
    exact hfront ht

/-!
# Exactness
-/

/-- On lists of at most `n` tokens the parser takes from the front exactly what the grammar
derives at the level, and leaves a token that makes no more of it. -/
def Takes (names : Names) (n : Nat) (level : Level) (p : TokenParse Expr) : Prop :=
  forall tokens, tokens.length ≤ n -> forall e rest, p tokens = .ok (e, rest) <->
    exists u, tokens = u ++ rest ∧ Derives names level u e ∧
      ¬ level.Continues (frontToken rest).kind

variable {n : Nat} {level : Level} {p : TokenParse Expr}

theorem Takes.apply (hp : Takes names n level p) {u rest : List Token} {e : Expr}
    (hlength : (u ++ rest).length ≤ n) (hu : Derives names level u e)
    (hrest : ¬ level.Continues (frontToken rest).kind) : p (u ++ rest) = .ok (e, rest) :=
  (hp _ hlength e rest).mpr ⟨u, rfl, hu, hrest⟩

/-!
# Operands and prefix operators
-/

theorem length_of_behind {u rest : List Token} (h : (u ++ rest).length ≤ n) :
    rest.length ≤ n := by
  rw [List.length_append] at h
  exact Nat.le_trans (Nat.le_add_left _ _) h

theorem Takes.nil (hp : Takes names n level p) (e : Expr) (rest : List Token) :
    p [] ≠ .ok (e, rest) := by
  intro h
  obtain ⟨u, hsplit, hu, _⟩ := (hp [] (Nat.zero_le n) e rest).mp h
  exact hu.ne_nil (List.append_eq_nil_iff.mp hsplit.symm).1

theorem takes_zero (hp : forall e rest, p [] ≠ .ok (e, rest)) : Takes names 0 level p := by
  intro tokens hlength e rest
  obtain rfl := List.length_eq_zero_iff.mp (Nat.le_zero.mp hlength)
  refine iff_of_false (hp e rest) ?_
  rintro ⟨u, hsplit, hu, _⟩
  exact hu.ne_nil (List.append_eq_nil_iff.mp hsplit.symm).1

theorem unaryOp?_eq_some {kind : TokenKind} {op : UnaryOp} :
    unaryOp? kind = some op <-> kind = op.token := by
  constructor
  · intro h
    unfold unaryOp? at h
    split at h <;> cases h <;> rfl
  · rintro rfl
    cases op <;> rfl

theorem unaryWithin_prefixed {t : Token} {op : UnaryOp} (ht : t.kind = op.token) (limit : Nat)
    (rest : List Token) : unaryWithin p (limit + 1) (t :: rest) =
      (unaryWithin p limit >>= fun e => return .unary t.pos op e) rest := by
  rw [unaryWithin, currentKind_bind, frontToken_cons, unaryOp?_eq_some.mpr ht]
  exact advance_bind ht op.token_ne_end _ rest

theorem unaryWithin_plain {tokens : List Token}
    (hfront : forall op : UnaryOp, (frontToken tokens).kind ≠ op.token) (limit : Nat) :
    unaryWithin p (limit + 1) tokens = p tokens := by
  have hnone : unaryOp? (frontToken tokens).kind = none := by
    rw [Option.eq_none_iff_forall_ne_some]
    exact fun op hop => hfront op (unaryOp?_eq_some.mp hop)
  rw [unaryWithin, currentKind_bind, hnone]

theorem takes_unaryWithin (hp : Takes names n .operand p) {limit : Nat} (hlimit : limit ≤ n) :
    Takes names limit .unary (unaryWithin p limit) := by
  induction limit with
  | zero => exact takes_zero hp.nil
  | succ limit ih =>
      intro tokens hlength e rest
      by_cases hfront : exists op : UnaryOp, (frontToken tokens).kind = op.token
      · obtain ⟨op, hop⟩ := hfront
        obtain ⟨t, tail, rfl, htoken⟩ := exists_front hop op.token_ne_end
        have htail : tail.length ≤ limit := Nat.le_of_succ_le_succ hlength
        rw [unaryWithin_prefixed htoken, bind_eq_ok]
        constructor
        · rintro ⟨operand, mid, hoperand, hresult⟩
          obtain ⟨u, rfl, hu, hrest⟩ := (ih (Nat.le_of_succ_le hlimit) tail htail _ _).mp hoperand
          cases hresult
          exact ⟨t :: u, rfl, .unary htoken hu, hrest⟩
        · rintro ⟨u, hsplit, hu, hrest⟩
          cases hu with
          | tighter hnext hoperand =>
              cases hnext
              have hfront := hoperand.front_operand rfl op
              rw [← frontToken_append hoperand.ne_nil rest, ← hsplit] at hfront
              exact absurd hop hfront
          | @binary _ op' _ _ _ _ _ hlevel _ _ _ => cases op' <;> cases hlevel
          | unary ht hu =>
              cases hsplit
              obtain rfl : op = _ := UnaryOp.token_injective (htoken.symm.trans ht)
              exact ⟨_, _, (ih (Nat.le_of_succ_le hlimit)).apply htail hu hrest, rfl⟩
      · rw [unaryWithin_plain (fun op hop => hfront ⟨op, hop⟩),
          hp tokens (Nat.le_trans hlength hlimit)]
        refine exists_congr fun u => and_congr_right fun hsplit => ?_
        refine and_congr ⟨.tighter rfl, fun hu => ?_⟩
          (iff_of_true (Level.not_continues_operand _) (Level.not_continues_unary _))
        cases hu with
        | tighter hnext hoperand => cases hnext; exact hoperand
        | @binary _ op' _ _ _ _ _ hlevel _ _ _ => cases op' <;> cases hlevel
        | unary ht _ => 
            subst hsplit
            exact absurd ⟨_, ht⟩ hfront

theorem takes_unary (hp : Takes names n .operand p) : Takes names n .unary (unary p) :=
  fun tokens hlength => takes_unaryWithin hp hlength tokens (Nat.le_refl _)

/-!
# Powers
-/

theorem powerWithin_eq_ok {limit : Nat} {tokens rest : List Token} {e : Expr} :
    powerWithin p (limit + 1) tokens = .ok (e, rest) <->
      exists left mid, p tokens = .ok (left, mid) ∧
        (((frontToken mid).kind ≠ .caret ∧ e = left ∧ rest = mid) ∨
          exists t tail right, mid = t :: tail ∧ t.kind = .caret ∧
            powerWithin p limit tail = .ok (right, rest) ∧
            e = .binary t.pos .pow left right) := by
  refine bind_eq_ok.trans ?_
  refine exists_congr fun left => exists_congr fun mid => and_congr_right fun _ => ?_
  change (if (frontToken mid).kind = .caret then do
      let token ← advance
      return .binary token.pos .pow left (← powerWithin p limit)
    else return left : TokenParse Expr) mid = _ <-> _
  by_cases hfront : (frontToken mid).kind = .caret
  · obtain ⟨t, tail, rfl, ht⟩ := exists_front hfront (by decide)
    rw [if_pos hfront, advance_bind ht (by decide), bind_eq_ok]
    constructor
    · rintro ⟨right, _, hright, hresult⟩
      cases hresult
      exact .inr ⟨t, tail, right, rfl, hfront, hright, rfl⟩
    · rintro (⟨hne, _⟩ | ⟨_, _, right, hmid, _, hright, rfl⟩)
      · exact absurd hfront hne
      · cases hmid
        exact ⟨right, rest, hright, rfl⟩
  · rw [if_neg hfront]
    constructor
    · intro hresult
      cases hresult
      exact .inl ⟨hfront, rfl, rfl⟩
    · rintro (⟨_, rfl, rfl⟩ | ⟨t, _, _, rfl, ht, _⟩)
      · rfl
      · exact absurd ht hfront

theorem continues_power {kind : TokenKind} : Level.power.Continues kind <-> kind = .caret := by
  constructor
  · rintro ⟨op, rfl, hrank⟩
    cases op <;> first | rfl | exact absurd hrank (by decide)
  · rintro rfl
    exact ⟨.pow, rfl, Nat.le_refl _⟩

theorem takes_powerWithin (hp : Takes names n .unary p) {limit : Nat} (hlimit : limit ≤ n) :
    Takes names limit .power (powerWithin p limit) := by
  induction limit with
  | zero => exact takes_zero hp.nil
  | succ limit ih =>
      replace ih := ih (Nat.le_of_succ_le hlimit)
      intro tokens hlength e rest
      have hp' := hp tokens (Nat.le_trans hlength hlimit)
      rw [powerWithin_eq_ok]
      constructor
      · rintro ⟨left, mid, hleft, hbehind⟩
        obtain ⟨u, rfl, hu, -⟩ := (hp' _ _).mp hleft
        rcases hbehind with ⟨hcaret, rfl, rfl⟩ | ⟨t, tail, right, rfl, ht, hright, rfl⟩
        · exact ⟨u, rfl, .tighter rfl hu, fun h => hcaret (continues_power.mp h)⟩
        · have htail : tail.length ≤ limit := by
            simp only [List.length_append, List.length_cons] at hlength
            omega
          obtain ⟨v, rfl, hv, hrest⟩ := (ih tail htail _ _).mp hright
          exact ⟨u ++ t :: v, by simp, .binary rfl ht hu hv, hrest⟩
      · rintro ⟨u, rfl, hu, hrest⟩
        cases hu with
        | tighter hnext hu =>
            cases hnext
            exact ⟨e, rest, (hp' _ _).mpr ⟨u, rfl, hu, Level.not_continues_unary _⟩,
              .inl ⟨fun h => hrest (continues_power.mpr h), rfl, rfl⟩⟩
        | @binary _ op t u v left right hlevel ht hu hv =>
            obtain rfl : op = .pow := by cases op <;> first | rfl | cases hlevel
            have htail : (v ++ rest).length ≤ limit := by
              simp only [List.length_append, List.length_cons] at hlength ⊢
              omega
            exact ⟨left, t :: (v ++ rest),
              (hp' _ _).mpr ⟨u, by simp, hu, Level.not_continues_unary _⟩,
              .inr ⟨t, v ++ rest, right, rfl, ht, ih.apply htail hv hrest, rfl⟩⟩

theorem takes_power (hp : Takes names n .unary p) : Takes names n .power (power p) :=
  fun tokens hlength => takes_powerWithin hp hlength tokens (Nat.le_refl _)

/-!
# Operators that group to the left
-/

def ReadsLevel (op? : TokenKind -> Option BinaryOp) (level : Level) : Prop :=
  forall kind op, op? kind = some op <-> op.token = kind ∧ op.level = level

theorem readsLevel_comparison : ReadsLevel comparisonOp? .comparison := by
  intro kind op
  constructor
  · intro h
    unfold comparisonOp? at h
    split at h <;> cases h <;> exact ⟨rfl, rfl⟩
  · rintro ⟨rfl, hlevel⟩
    cases op <;> first | rfl | cases hlevel

theorem readsLevel_additive : ReadsLevel additiveOp? .additive := by
  intro kind op
  constructor
  · intro h
    unfold additiveOp? at h
    split at h <;> cases h <;> exact ⟨rfl, rfl⟩
  · rintro ⟨rfl, hlevel⟩
    cases op <;> first | rfl | cases hlevel

theorem readsLevel_multiplicative : ReadsLevel multiplicativeOp? .multiplicative := by
  intro kind op
  constructor
  · intro h
    unfold multiplicativeOp? at h
    split at h <;> cases h <;> exact ⟨rfl, rfl⟩
  · rintro ⟨rfl, hlevel⟩
    cases op <;> first | rfl | cases hlevel

/-- What may stand behind an expression of a level whose operators group to the left, and
the tree that it makes of the one before it. -/
inductive Tail (names : Names) (level : Level) : Expr -> List Token -> Expr -> Prop where
  | nil {e : Expr} : Tail names level e [] e
  | cons {op : BinaryOp} {t : Token} {u v : List Token} {l r e : Expr} :
      op.level = level -> t.kind = op.token -> Derives names level.right u r ->
      Tail names level (.binary t.pos op l r) v e -> Tail names level l (t :: (u ++ v)) e

theorem Tail.snoc {op : BinaryOp} {t : Token} {l r e : Expr} {u v : List Token}
    (h : Tail names level l v e) (hlevel : op.level = level) (ht : t.kind = op.token)
    (hr : Derives names level.right u r) :
    Tail names level l (v ++ t :: u) (.binary t.pos op e r) := by
  induction h with
  | nil => simpa using Tail.cons hlevel ht hr .nil
  | @cons _ t' u' v _ _ _ hlevel' ht' hr' _ ih =>
      simpa using Tail.cons hlevel' ht' hr' ih

theorem Tail.derives {l e : Expr} {u v : List Token} (h : Tail names level l v e)
    (hleft : level.left = level) (hl : Derives names level u l) :
    Derives names level (u ++ v) e := by
  induction h generalizing u with
  | nil => simpa using hl
  | cons hlevel ht hr _ ih =>
      simpa using ih (.binary hlevel ht (hleft.symm ▸ hl) hr)

theorem exists_tail {next : Level} (hnext : level.next? = some next)
    (hleft : level.left = level) {w : List Token} {e : Expr} (h : Derives names level w e) :
    exists u l v, w = u ++ v ∧ Derives names next u l ∧ Tail names level l v e := by
  generalize hlevel : level = level' at h
  induction h with
  | tighter hnext' h _ =>
      subst hlevel
      cases hnext.symm.trans hnext'
      exact ⟨_, _, [], by simp, h, .nil⟩
  | @binary _ op t u v l r hop ht _ hr ihl _ =>
      subst hlevel
      rw [hleft] at ihl
      obtain ⟨u, first, w, rfl, hfirst, htail⟩ := ihl rfl
      exact ⟨u, first, w ++ t :: v, by simp, hfirst, htail.snoc hop ht hr⟩
  | unary => subst hlevel; cases hleft
  | literal | const | var | call | group => subst hlevel; cases hnext

theorem Tail.not_continues {next : Level} (hnext : level.next? = some next) {l e : Expr}
    {v rest : List Token} (h : Tail names level l v e)
    (hrest : ¬ level.Continues (frontToken rest).kind) :
    ¬ next.Continues (frontToken (v ++ rest)).kind := by
  cases h with
  | nil => exact fun hcontinues => hrest ((Level.continues_iff hnext _).mpr (.inl hcontinues))
  | cons hlevel ht _ _ =>
      subst hlevel
      rw [List.cons_append, frontToken_cons, ht]
      exact Level.not_continues_next hnext

variable {op? : TokenKind -> Option BinaryOp}

theorem chainWithin_operator (hop? : ReadsLevel op? level) {op : BinaryOp} {t : Token}
    (hlevel : op.level = level) (ht : t.kind = op.token) {limit : Nat} {left e : Expr}
    {tail rest : List Token} :
    chainWithin op? p (limit + 1) left (t :: tail) = .ok (e, rest) <->
      exists right mid, p tail = .ok (right, mid) ∧
        chainWithin op? p limit (.binary t.pos op left right) mid = .ok (e, rest) := by
  rw [chainWithin, currentKind_bind, frontToken_cons, (hop? t.kind op).mpr ⟨ht.symm, hlevel⟩]
  change (advance >>= _) (t :: tail) = _ <-> _
  rw [advance_bind ht op.token_ne_end]
  exact bind_eq_ok

theorem chainWithin_end (hop? : ReadsLevel op? level) {tokens : List Token}
    (hfront : forall op : BinaryOp, op.token = (frontToken tokens).kind -> op.level ≠ level)
    (limit : Nat) (left : Expr) :
    chainWithin op? p (limit + 1) left tokens = .ok (left, tokens) := by
  have hnone : op? (frontToken tokens).kind = none := by
    rw [Option.eq_none_iff_forall_ne_some]
    intro op hop
    obtain ⟨htoken, hlevel⟩ := (hop? _ op).mp hop
    exact hfront op htoken hlevel
  rw [chainWithin, currentKind_bind, hnone]
  rfl

theorem chainWithin_eq_ok {next : Level} (hop? : ReadsLevel op? level)
    (hnext : level.next? = some next) (hright : level.right = next)
    (hp : Takes names n next p) {limit : Nat} (hlimit : limit ≤ n) {tokens : List Token}
    (hlength : tokens.length ≤ limit) (hfront : ¬ next.Continues (frontToken tokens).kind)
    {left e : Expr} {rest : List Token} :
    chainWithin op? p limit left tokens = .ok (e, rest) <->
      exists v, tokens = v ++ rest ∧ Tail names level left v e ∧
        ¬ level.Continues (frontToken rest).kind := by
  induction limit generalizing tokens left with
  | zero =>
      obtain rfl := List.length_eq_zero_iff.mp (Nat.le_zero.mp hlength)
      change Except.ok (left, []) = _ <-> _
      constructor
      · intro h
        cases h
        exact ⟨[], rfl, .nil, Level.not_continues_of_ne fun op => op.token_ne_end⟩
      · rintro ⟨v, hsplit, htail, _⟩
        obtain ⟨rfl, rfl⟩ := List.append_eq_nil_iff.mp hsplit.symm
        cases htail
        rfl
  | succ limit ih =>
      by_cases hop : exists op : BinaryOp,
          op.token = (frontToken tokens).kind ∧ op.level = level
      · obtain ⟨op, hop, hlevel⟩ := hop
        obtain ⟨t, behind, rfl, ht⟩ := exists_front hop.symm op.token_ne_end
        rw [chainWithin_operator hop? hlevel ht]
        have hbehind : behind.length ≤ limit := Nat.le_of_succ_le_succ hlength
        have hp := hp behind (Nat.le_trans hbehind (Nat.le_of_succ_le hlimit))
        replace ih := @ih (Nat.le_of_succ_le hlimit)
        constructor
        · rintro ⟨right, mid, hr, hchain⟩
          obtain ⟨u, rfl, hu, hmid⟩ := (hp _ _).mp hr
          obtain ⟨v, rfl, hv, hrest⟩ := (ih (length_of_behind hbehind) hmid).mp hchain
          exact ⟨t :: (u ++ v), by simp, .cons hlevel ht (hright ▸ hu) hv, hrest⟩
        · rintro ⟨v, hsplit, htail, hrest⟩
          cases htail with
          | nil =>
              obtain rfl : rest = t :: behind := hsplit.symm
              exact absurd ⟨op, ht.symm, hlevel ▸ Nat.le_refl _⟩ hrest
          | @cons op' t' u v _ right _ hlevel' ht' hu hv =>
              rw [List.cons_append] at hsplit
              cases hsplit
              obtain rfl := BinaryOp.token_injective (ht.symm.trans ht')
              rw [hright] at hu
              have hmid := hv.not_continues hnext hrest
              refine ⟨right, v ++ rest, (hp _ _).mpr ⟨u, by simp, hu, hmid⟩, ?_⟩
              refine (ih ?_ hmid).mpr ⟨v, rfl, hv, hrest⟩
              simp only [List.length_append] at hbehind ⊢
              omega
      · rw [chainWithin_end hop? (fun op htoken hlevel => hop ⟨op, htoken, hlevel⟩)]
        have hstop : ¬ level.Continues (frontToken tokens).kind := by
          rw [Level.continues_iff hnext]
          exact not_or.mpr ⟨hfront, hop⟩
        constructor
        · intro h
          cases h
          exact ⟨[], rfl, .nil, hstop⟩
        · rintro ⟨v, rfl, htail, _⟩
          cases htail with
          | nil => rfl
          | cons hlevel ht _ _ => exact absurd ⟨_, ht.symm, hlevel⟩ hop

theorem takes_chain {next : Level} (hop? : ReadsLevel op? level)
    (hnext : level.next? = some next) (hleft : level.left = level) (hright : level.right = next)
    (hp : Takes names n next p) : Takes names n level (chain op? p) := by
  intro tokens hlength e rest
  refine bind_eq_ok.trans ?_
  constructor
  · rintro ⟨left, mid, hl, hchain⟩
    obtain ⟨u, rfl, hu, hmid⟩ := (hp _ hlength _ _).mp hl
    change chainWithin op? p mid.length left mid = _ at hchain
    rw [chainWithin_eq_ok hop? hnext hright hp (length_of_behind hlength) (Nat.le_refl _)
      hmid] at hchain
    obtain ⟨v, rfl, hv, hrest⟩ := hchain
    exact ⟨u ++ v, by simp, hv.derives hleft (.tighter hnext hu), hrest⟩
  · rintro ⟨w, rfl, hw, hrest⟩
    obtain ⟨u, left, v, rfl, hu, hv⟩ := exists_tail hnext hleft hw
    have hmid := hv.not_continues hnext hrest
    rw [List.append_assoc] at hlength ⊢
    refine ⟨left, v ++ rest, hp.apply hlength hu hmid, ?_⟩
    exact (chainWithin_eq_ok hop? hnext hright hp (length_of_behind hlength) (Nat.le_refl _)
      hmid).mpr ⟨v, rfl, hv, hrest⟩

/-!
# Comparisons
-/

def comparisonEnd (e : Expr) : TokenParse Expr := do
  let behind ← current
  if (comparisonOp? behind.kind).isSome then
    fail .chainedComparison (some behind.pos)
  return e

def comparisonBehind (next : TokenParse Expr) (left : Expr) : TokenParse Expr := do
  match comparisonOp? (← currentKind) with
  | none => return left
  | some op =>
      let token ← advance
      let right ← next
      comparisonEnd (.binary token.pos op left right)

theorem comparison_eq : comparison p = p >>= comparisonBehind p :=
  rfl

theorem comparisonOp?_isSome {kind : TokenKind} : (comparisonOp? kind).isSome = true <->
    exists op : BinaryOp, op.token = kind ∧ op.level = .comparison := by
  rw [Option.isSome_iff_exists]
  exact exists_congr fun op => readsLevel_comparison kind op

theorem comparisonEnd_eq (e : Expr) (tokens : List Token) :
    comparisonEnd e tokens =
      if (comparisonOp? (frontToken tokens).kind).isSome then
        .error { cause := .chainedComparison, pos := some (frontToken tokens).pos }
      else .ok (e, tokens) := by
  change (if (comparisonOp? (frontToken tokens).kind).isSome then _ else _ :
    TokenParse Expr) tokens = _
  split <;> rfl

theorem comparisonBehind_plain {tokens : List Token}
    (hfront : ¬ (comparisonOp? (frontToken tokens).kind).isSome) (left : Expr) :
    comparisonBehind p left tokens = .ok (left, tokens) := by
  rw [comparisonBehind, currentKind_bind, Option.not_isSome_iff_eq_none.mp hfront]
  rfl

theorem comparisonBehind_operator {op : BinaryOp} {t : Token} (hlevel : op.level = .comparison)
    (ht : t.kind = op.token) (left : Expr) (tail : List Token) :
    comparisonBehind p left (t :: tail) =
      (p >>= fun right => comparisonEnd (.binary t.pos op left right)) tail := by
  rw [comparisonBehind, currentKind_bind, frontToken_cons,
    (readsLevel_comparison t.kind op).mpr ⟨ht.symm, hlevel⟩]
  exact advance_bind ht op.token_ne_end _ tail

theorem takes_comparison (hp : Takes names n .additive p) :
    Takes names n .comparison (comparison p) := by
  intro tokens hlength e rest
  rw [comparison_eq, bind_eq_ok]
  constructor
  · rintro ⟨left, mid, hl, hbehind⟩
    obtain ⟨u, rfl, hu, hmid⟩ := (hp _ hlength _ _).mp hl
    by_cases hop : (comparisonOp? (frontToken mid).kind).isSome
    · obtain ⟨op, htoken, hlevel⟩ := comparisonOp?_isSome.mp hop
      obtain ⟨t, tail, rfl, ht⟩ := exists_front htoken.symm op.token_ne_end
      rw [comparisonBehind_operator hlevel ht, bind_eq_ok] at hbehind
      obtain ⟨right, mid, hr, hend⟩ := hbehind
      have htail : tail.length ≤ n :=
        Nat.le_of_succ_le (length_of_behind (u := u) hlength)
      obtain ⟨v, rfl, hv, hrest⟩ := (hp _ htail _ _).mp hr
      rw [comparisonEnd_eq] at hend
      split at hend
      · cases hend
      · rename_i hnone
        cases hend
        refine ⟨u ++ t :: v, by simp, .binary hlevel ht hu hv, ?_⟩
        rw [Level.continues_iff rfl, ← comparisonOp?_isSome]
        exact not_or.mpr ⟨hrest, hnone⟩
    · rw [comparisonBehind_plain hop] at hbehind
      cases hbehind
      refine ⟨u, rfl, .tighter rfl hu, ?_⟩
      rw [Level.continues_iff rfl, ← comparisonOp?_isSome]
      exact not_or.mpr ⟨hmid, hop⟩
  · rintro ⟨w, rfl, hw, hrest⟩
    rw [Level.continues_iff rfl, ← comparisonOp?_isSome] at hrest
    obtain ⟨hrest, hnone⟩ := not_or.mp hrest
    cases hw with
    | tighter hnext hw =>
        cases hnext
        exact ⟨e, rest, hp.apply hlength hw hrest, comparisonBehind_plain hnone e⟩
    | @binary _ op t u v left right hlevel ht hu hv =>
        rw [List.append_assoc] at hlength ⊢
        have hmid : ¬ Level.additive.Continues t.kind := by
          rw [ht]
          exact Level.not_continues_next (hlevel ▸ rfl)
        refine ⟨left, _, hp.apply hlength hu hmid, ?_⟩
        have htail : (v ++ rest).length ≤ n :=
          Nat.le_of_succ_le (length_of_behind (u := u) hlength)
        rw [List.cons_append, comparisonBehind_operator hlevel ht,
          bind_of_ok (hp.apply htail hv hrest), comparisonEnd_eq, if_neg hnone]

theorem comparison_chained (hp : Takes names n .additive p) {op op' : BinaryOp} {t t' : Token}
    (hlevel : op.level = .comparison) (hlevel' : op'.level = .comparison)
    (ht : t.kind = op.token) (ht' : t'.kind = op'.token) {u v rest : List Token}
    {left right : Expr} (hu : Derives names .additive u left)
    (hv : Derives names .additive v right)
    (hlength : (u ++ t :: (v ++ t' :: rest)).length ≤ n) :
    comparison p (u ++ t :: (v ++ t' :: rest)) =
      .error { cause := .chainedComparison, pos := some t'.pos } := by
  have hmid : ¬ Level.additive.Continues t.kind := by
    rw [ht]
    exact Level.not_continues_next (hlevel ▸ rfl)
  have hend : ¬ Level.additive.Continues t'.kind := by
    rw [ht']
    exact Level.not_continues_next (hlevel' ▸ rfl)
  have htail : (v ++ t' :: rest).length ≤ n :=
    Nat.le_of_succ_le (length_of_behind (u := u) hlength)
  rw [comparison_eq, bind_of_ok (hp.apply hlength hu hmid), comparisonBehind_operator hlevel ht,
    bind_of_ok (hp.apply htail hv hend), comparisonEnd_eq]
  exact if_pos (comparisonOp?_isSome.mpr ⟨op', ht'.symm, hlevel'⟩)

end Parse
end Scriptlet
