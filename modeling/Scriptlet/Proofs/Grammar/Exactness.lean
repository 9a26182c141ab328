import Scriptlet.Proofs.Grammar.Levels

/-!
# The parser of expressions and its grammar

An operand is exact where the parser of what it nests is.  With the levels over it, the
whole parser is exact by induction on the depth of nesting.
-/

namespace Scriptlet
namespace Parse

variable {β : Type} {names : Names} {n : Nat} {p : TokenParse Expr}

/-!
# Arguments
-/

theorem accept_bind (kind : TokenKind) (f : Bool -> TokenParse β) (tokens : List Token) :
    (accept kind >>= f) tokens =
      if (frontToken tokens).kind = kind then f true (dropFront tokens) else f false tokens := by
  by_cases hfront : (frontToken tokens).kind = kind
  · rw [if_pos hfront]
    refine bind_of_ok ?_ f
    change (if (frontToken tokens).kind = kind then _ else _ : TokenParse Bool) tokens = _
    rw [if_pos hfront]
    rfl
  · rw [if_neg hfront]
    refine bind_of_ok ?_ f
    change (if (frontToken tokens).kind = kind then _ else _ : TokenParse Bool) tokens = _
    rw [if_neg hfront]
    rfl

theorem argumentsWithin_eq_ok {limit : Nat} {tokens rest : List Token} {args : List Expr} :
    argumentsWithin p (limit + 1) tokens = .ok (args, rest) <->
      exists arg mid, p tokens = .ok (arg, mid) ∧
        ((exists comma tail others, mid = comma :: tail ∧ comma.kind = .comma ∧
            argumentsWithin p limit tail = .ok (others, rest) ∧ args = arg :: others) ∨
          exists closing, mid = closing :: rest ∧ closing.kind = .closeParen ∧ args = [arg]) := by
  refine bind_eq_ok.trans ?_
  refine exists_congr fun arg => exists_congr fun mid => and_congr_right fun _ => ?_
  rw [accept_bind]
  by_cases hfront : (frontToken mid).kind = .comma
  · obtain ⟨comma, tail, rfl, hcomma⟩ := exists_front hfront (by decide)
    rw [if_pos hfront, dropFront_cons hcomma (by decide)]
    refine bind_eq_ok.trans ?_
    constructor
    · rintro ⟨others, _, hothers, hresult⟩
      cases hresult
      exact .inl ⟨comma, tail, others, rfl, hcomma, hothers, rfl⟩
    · rintro (⟨_, _, others, hmid, _, hothers, rfl⟩ | ⟨_, hmid, hclosing, _⟩)
      · cases hmid
        exact ⟨others, rest, hothers, rfl⟩
      · cases hmid
        exact absurd (hcomma.symm.trans hclosing) (by decide)
  · rw [if_neg hfront]
    refine bind_eq_ok.trans ?_
    constructor
    · rintro ⟨closing, _, hclosing, hresult⟩
      cases hresult
      obtain ⟨rfl, hkind⟩ := (expect_eq_ok (by decide)).mp hclosing
      exact .inr ⟨closing, rfl, hkind, rfl⟩
    · rintro (⟨_, _, _, rfl, hcomma, _⟩ | ⟨closing, rfl, hclosing, rfl⟩)
      · exact absurd hcomma hfront
      · exact ⟨closing, rest, (expect_eq_ok (by decide)).mpr ⟨rfl, hclosing⟩, rfl⟩

theorem not_continues_closeParen (level : Level) : ¬ level.Continues .closeParen :=
  Level.not_continues_of_ne fun op => by cases op <;> decide

theorem not_continues_comma (level : Level) : ¬ level.Continues .comma :=
  Level.not_continues_of_ne fun op => by cases op <;> decide

theorem argumentsWithin_takes (hp : Takes names n .comparison p) {limit : Nat}
    (hlimit : limit ≤ n) {tokens rest : List Token} (hlength : tokens.length ≤ limit)
    {args : List Expr} : argumentsWithin p limit tokens = .ok (args, rest) <->
      exists u closing, tokens = u ++ closing :: rest ∧ closing.kind = .closeParen ∧
        args ≠ [] ∧ DerivesArgs names u args := by
  induction limit generalizing tokens args with
  | zero =>
      obtain rfl := List.length_eq_zero_iff.mp (Nat.le_zero.mp hlength)
      refine iff_of_false (fun h => ?_) (fun ⟨u, _, hsplit, _⟩ => by cases u <;> cases hsplit)
      obtain ⟨arg, mid, harg, _⟩ := bind_eq_ok.mp h
      exact hp.nil arg mid harg
  | succ limit ih =>
      replace ih := @ih (Nat.le_of_succ_le hlimit)
      have hp := hp tokens (Nat.le_trans hlength hlimit)
      rw [argumentsWithin_eq_ok]
      constructor
      · rintro ⟨arg, mid, harg, hbehind⟩
        obtain ⟨u, rfl, hu, _⟩ := (hp _ _).mp harg
        rcases hbehind with ⟨comma, tail, others, rfl, hcomma, hothers, rfl⟩ |
          ⟨closing, rfl, hclosing, rfl⟩
        · have htail : tail.length ≤ limit := by
            simp only [List.length_append, List.length_cons] at hlength
            omega
          obtain ⟨v, closing, rfl, hclosing, hne, hv⟩ := (ih htail).mp hothers
          exact ⟨u ++ comma :: v, closing, by simp, hclosing, by simp, hv.cons hu hcomma hne⟩
        · exact ⟨u, closing, rfl, hclosing, by simp, .single hu⟩
      · rintro ⟨u, closing, rfl, hclosing, hne, hargs⟩
        rcases hargs.cases_on with ⟨_, rfl⟩ | ⟨e, rfl, he⟩ |
          ⟨v, comma, w, e, others, rfl, rfl, hcomma, hothers, he, hw⟩
        · exact absurd rfl hne
        · have hstop : ¬ Level.comparison.Continues closing.kind :=
            hclosing ▸ not_continues_closeParen _
          exact ⟨e, closing :: rest, (hp _ _).mpr ⟨u, rfl, he, hstop⟩,
            .inr ⟨closing, rfl, hclosing, rfl⟩⟩
        · have hstop : ¬ Level.comparison.Continues comma.kind :=
            hcomma ▸ not_continues_comma _
          have htail : (w ++ closing :: rest).length ≤ limit := by
            simp only [List.length_append, List.length_cons] at hlength ⊢
            omega
          exact ⟨e, comma :: (w ++ closing :: rest), (hp _ _).mpr ⟨v, by simp, he, hstop⟩,
            .inl ⟨comma, _, others, rfl, hcomma,
              (ih htail).mpr ⟨w, closing, rfl, hclosing, hothers, hw⟩, rfl⟩⟩

theorem arguments_takes (hp : Takes names n .comparison p) {tokens rest : List Token}
    (hlength : tokens.length ≤ n) {args : List Expr} :
    arguments p tokens = .ok (args, rest) <->
      exists opening u closing, tokens = opening :: (u ++ closing :: rest) ∧
        opening.kind = .openParen ∧ closing.kind = .closeParen ∧ DerivesArgs names u args := by
  refine bind_eq_ok.trans ?_
  constructor
  · rintro ⟨opening, mid, hopening, hbehind⟩
    obtain ⟨rfl, hkind⟩ := (expect_eq_ok (by decide)).mp hopening
    rw [accept_bind] at hbehind
    by_cases hfront : (frontToken mid).kind = .closeParen
    · obtain ⟨closing, tail, rfl, hclosing⟩ := exists_front hfront (by decide)
      rw [if_pos hfront, dropFront_cons hclosing (by decide)] at hbehind
      cases hbehind
      exact ⟨opening, [], closing, rfl, hkind, hclosing, .nil⟩
    · rw [if_neg hfront] at hbehind
      obtain ⟨u, closing, rfl, hclosing, _, hu⟩ :=
        (argumentsWithin_takes hp (Nat.le_of_succ_le hlength) (Nat.le_refl _)).mp hbehind
      exact ⟨opening, u, closing, rfl, hkind, hclosing, hu⟩
  · rintro ⟨opening, u, closing, rfl, hopening, hclosing, hargs⟩
    refine ⟨opening, _, (expect_eq_ok (by decide)).mpr ⟨rfl, hopening⟩, ?_⟩
    rw [accept_bind]
    by_cases hne : args = []
    · subst hne
      obtain rfl : u = [] := by
        rcases hargs.cases_on with ⟨hu, _⟩ | ⟨_, hargs, _⟩ | ⟨_, _, _, _, _, _, hargs, _⟩
        · exact hu
        · cases hargs
        · cases hargs
      rw [List.nil_append, frontToken_cons, if_pos hclosing, dropFront_cons hclosing (by decide)]
      rfl
    · rw [if_neg (hargs.front_ne_closeParen hne _)]
      exact (argumentsWithin_takes hp (Nat.le_of_succ_le hlength) (Nat.le_refl _)).mpr
        ⟨u, closing, rfl, hclosing, hne, hargs⟩

theorem checkArity_eq_ok {name : String} {pos : Pos} {arity : Nat} {args args' : List Expr}
    {tokens rest : List Token} :
    (do
      if args.length ≠ arity then
        fail (.arityMismatch name arity args.length) (some pos)
      return args : TokenParse (List Expr)) tokens = .ok (args', rest) <->
    args.length = arity ∧ args' = args ∧ rest = tokens := by
  change (if args.length ≠ arity then _ else _ : TokenParse (List Expr)) tokens = _ <-> _
  by_cases harity : args.length = arity
  · rw [if_neg (not_not_intro harity)]
    change Except.ok (args, tokens) = _ <-> _
    constructor
    · intro h
      cases h
      exact ⟨harity, rfl, rfl⟩
    · rintro ⟨_, rfl, rfl⟩
      rfl
  · rw [if_pos harity]
    exact iff_of_false (fun h => by cases h) (fun h => harity h.1)

theorem callArguments_eq_ok {b : Binding} {pos : Pos} {tokens rest : List Token}
    {args : List Expr} : callArguments names p b pos tokens = .ok (args, rest) <->
      (names.program.function b.id).result = b.type ∧
        args.length = (names.program.function b.id).params.length ∧
        arguments p tokens = .ok (args, rest) := by
  change (if (names.program.function b.id).result ≠ b.type then _ else _ :
    TokenParse (List Expr)) tokens = _ <-> _
  by_cases hresult : (names.program.function b.id).result = b.type
  · rw [if_neg (not_not_intro hresult)]
    refine bind_eq_ok.trans ?_
    constructor
    · rintro ⟨_, mid, hargs, hcheck⟩
      obtain ⟨harity, rfl, rfl⟩ := checkArity_eq_ok.mp hcheck
      exact ⟨hresult, harity, hargs⟩
    · rintro ⟨_, harity, hargs⟩
      exact ⟨args, rest, hargs, checkArity_eq_ok.mpr ⟨harity, rfl, rfl⟩⟩
  · rw [if_pos hresult]
    exact iff_of_false (fun h => by cases h) (fun h => hresult h.1)

/-!
# Operands
-/

theorem lookup_eq_ok {name : String} {pos : Pos} {tokens rest : List Token} {b : Binding} :
    lookup names name pos tokens = .ok (b, rest) <->
      names.find name = some b ∧ rest = tokens := by
  unfold lookup
  cases names.find name with
  | none => exact iff_of_false (fun h => by cases h) (fun h => by cases h.1)
  | some b' =>
      constructor
      · intro h
        cases h
        exact ⟨rfl, rfl⟩
      · rintro ⟨hb, rfl⟩
        cases hb
        rfl

theorem identifierExpr_takes (hp : Takes names n .comparison p) {t : Token}
    (ht : t.kind = .name) {tokens rest : List Token} (hlength : tokens.length ≤ n) {e : Expr} :
    identifierExpr names p t tokens = .ok (e, rest) <->
      exists u, tokens = u ++ rest ∧ Derives names .operand (t :: u) e := by
  refine bind_eq_ok.trans ?_
  constructor
  · rintro ⟨b, mid, hb, hresult⟩
    obtain ⟨hfind, rfl⟩ := lookup_eq_ok.mp hb
    cases hcategory : b.category <;> simp only [hcategory] at hresult
    · cases hresult
      exact ⟨[], rfl, .const ht hfind hcategory⟩
    · cases hresult
      exact ⟨[], rfl, .var ht hfind hcategory⟩
    · obtain ⟨args, mid, hargs, hcall⟩ := bind_eq_ok.mp hresult
      cases hcall
      obtain ⟨htable, harity, hargs⟩ := callArguments_eq_ok.mp hargs
      obtain ⟨opening, u, closing, rfl, hopening, hclosing, parts, hseparated, hparts, rfl⟩ :=
        (arguments_takes hp hlength).mp hargs
      refine ⟨opening :: (u ++ [closing]), by simp, ?_⟩
      exact .call ht hfind hcategory htable hopening hseparated hparts hclosing
        (by simpa using harity)
  · rintro ⟨u, rfl, hu⟩
    generalize hw : t :: u = w at hu
    cases hu with
    | tighter hnext _ => cases hnext
    | @binary _ op _ _ _ _ _ hlevel _ _ _ => cases op <;> cases hlevel
    | literal hvalue =>
        cases hw
        simp [literalValue?, ht] at hvalue
    | const _ hfind hcategory =>
        cases hw
        refine ⟨_, _, lookup_eq_ok.mpr ⟨hfind, rfl⟩, ?_⟩
        simp only [hcategory]
        rfl
    | var _ hfind hcategory =>
        cases hw
        refine ⟨_, _, lookup_eq_ok.mpr ⟨hfind, rfl⟩, ?_⟩
        simp only [hcategory]
        rfl
    | @call _ opening closing _ v parts _ hfind hcategory htable hopening hseparated hparts
        hclosing harity =>
        cases hw
        refine ⟨_, _, lookup_eq_ok.mpr ⟨hfind, rfl⟩, ?_⟩
        simp only [hcategory]
        refine bind_eq_ok.mpr ⟨parts.map (·.2), rest, callArguments_eq_ok.mpr ⟨htable, ?_, ?_⟩, rfl⟩
        · simpa using harity
        · exact (arguments_takes hp hlength).mpr
            ⟨opening, v, closing, by simp, hopening, hclosing, parts, hseparated, hparts, rfl⟩
    | group hopening _ _ =>
        cases hw
        exact absurd (ht.symm.trans hopening) (by decide)

theorem literalExpr_eq_ok {t : Token} (ht : t.kind ≠ .endOfInput) {tail rest : List Token}
    {e : Expr} :
    (do
      let _ ← advance
      return .literal t.pos (← literalValue t) : TokenParse Expr) (t :: tail) = .ok (e, rest) <->
    exists value, literalValue? t = some value ∧ e = .literal t.pos value ∧ rest = tail := by
  rw [advance_bind rfl ht]
  unfold literalValue
  cases literalValue? t with
  | none => exact iff_of_false (fun h => by cases h) (fun ⟨_, h, _⟩ => by cases h)
  | some value =>
      constructor
      · intro h
        cases h
        exact ⟨value, rfl, rfl, rfl⟩
      · rintro ⟨_, hvalue, rfl, rfl⟩
        cases hvalue
        rfl

theorem groupExpr_eq_ok {t : Token} (ht : t.kind = .openParen) {tail rest : List Token}
    {e : Expr} :
    (do
      let _ ← advance
      let e ← p
      let _ ← expect .closeParen
      return e.withPos t.pos : TokenParse Expr) (t :: tail) = .ok (e, rest) <->
    exists inner closing, p tail = .ok (inner, closing :: rest) ∧ closing.kind = .closeParen ∧
      e = inner.withPos t.pos := by
  rw [advance_bind ht (by decide)]
  refine bind_eq_ok.trans ?_
  constructor
  · rintro ⟨inner, mid, hinner, hbehind⟩
    obtain ⟨closing, _, hclosing, hresult⟩ := bind_eq_ok.mp hbehind
    cases hresult
    obtain ⟨rfl, hkind⟩ := (expect_eq_ok (by decide)).mp hclosing
    exact ⟨inner, closing, hinner, hkind, rfl⟩
  · rintro ⟨inner, closing, hinner, hclosing, rfl⟩
    exact ⟨inner, closing :: rest, hinner,
      bind_eq_ok.mpr ⟨closing, rest, (expect_eq_ok (by decide)).mpr ⟨rfl, hclosing⟩, rfl⟩⟩

theorem literalExpr_takes {t : Token}
    (ht : t.kind = .intLit ∨ t.kind = .floatLit ∨ t.kind = .boolLit) {tail rest : List Token}
    {e : Expr} :
    (do
      let _ ← advance
      return .literal t.pos (← literalValue t) : TokenParse Expr) (t :: tail) = .ok (e, rest) <->
    exists u, tail = u ++ rest ∧ Derives names .operand (t :: u) e := by
  rw [literalExpr_eq_ok (by rcases ht with ht | ht | ht <;> rw [ht] <;> decide)]
  constructor
  · rintro ⟨value, hvalue, rfl, rfl⟩
    exact ⟨[], rfl, .literal hvalue⟩
  · rintro ⟨u, rfl, hu⟩
    rcases hu.operand_cases with ⟨value, hvalue, rfl, rfl⟩ | hname | ⟨hopening, _⟩
    · exact ⟨value, hvalue, rfl, rfl⟩
    · rw [hname] at ht
      simp at ht
    · rw [hopening] at ht
      simp at ht

theorem groupExpr_takes (hp : Takes names n .comparison p) {t : Token}
    (ht : t.kind = .openParen) {tail rest : List Token} (hlength : tail.length ≤ n) {e : Expr} :
    (do
      let _ ← advance
      let e ← p
      let _ ← expect .closeParen
      return e.withPos t.pos : TokenParse Expr) (t :: tail) = .ok (e, rest) <->
    exists u, tail = u ++ rest ∧ Derives names .operand (t :: u) e := by
  rw [groupExpr_eq_ok ht]
  constructor
  · rintro ⟨inner, closing, hinner, hclosing, rfl⟩
    obtain ⟨u, rfl, hu, _⟩ := (hp _ hlength _ _).mp hinner
    exact ⟨u ++ [closing], by simp, .group ht hu hclosing⟩
  · rintro ⟨u, rfl, hu⟩
    rcases hu.operand_cases with ⟨value, hvalue, _⟩ | hname |
      ⟨_, v, closing, inner, rfl, hclosing, hv, rfl⟩
    · simp [literalValue?, ht] at hvalue
    · exact absurd (ht.symm.trans hname) (by decide)
    · refine ⟨inner, closing, (hp _ hlength _ _).mpr ⟨v, by simp, hv, ?_⟩, hclosing, rfl⟩
      exact hclosing ▸ not_continues_closeParen _

theorem takes_operand (hp : Takes names n .comparison p) :
    Takes names (n + 1) .operand (operand names p) := by
  intro tokens hlength e rest
  cases tokens with
  | nil =>
      refine iff_of_false (fun h => by cases h) ?_
      rintro ⟨u, hsplit, hu, _⟩
      exact hu.ne_nil (List.append_eq_nil_iff.mp hsplit.symm).1
  | cons t tail =>
      have htail : tail.length ≤ n := Nat.le_of_succ_le_succ hlength
      have hoperand : operand names p (t :: tail) = .ok (e, rest) <->
          exists u, tail = u ++ rest ∧ Derives names .operand (t :: u) e := by
        rw [operand, current_bind, frontToken_cons]
        cases ht : t.kind with
        | intLit => exact literalExpr_takes (.inl ht)
        | floatLit => exact literalExpr_takes (.inr (.inl ht))
        | boolLit => exact literalExpr_takes (.inr (.inr ht))
        | name =>
            refine Iff.trans ?_ (identifierExpr_takes hp ht htail)
            change (advance >>= _) (t :: tail) = _ <-> _
            rw [advance_bind ht (by decide)]
        | openParen => exact groupExpr_takes hp ht htail
        | _ =>
            refine iff_of_false (fun h => by cases h) ?_
            rintro ⟨u, _, hu⟩
            rcases hu.operand_cases with ⟨value, hvalue, _⟩ | hname | ⟨hopening, _⟩
            · simp [literalValue?, ht] at hvalue
            · exact absurd (ht.symm.trans hname) (by decide)
            · exact absurd (ht.symm.trans hopening) (by decide)
      rw [hoperand]
      constructor
      · rintro ⟨u, rfl, hu⟩
        exact ⟨t :: u, rfl, hu, Level.not_continues_operand _⟩
      · rintro ⟨w, hsplit, hw, _⟩
        obtain ⟨first, u, rfl⟩ := List.exists_cons_of_ne_nil hw.ne_nil
        cases hsplit
        exact ⟨u, rfl, hw⟩

/-!
# Nesting
-/

theorem takes_additive (hp : Takes names n .operand p) : Takes names n .additive
    (chain additiveOp? (chain multiplicativeOp? (power (unary p)))) := by
  have hmultiplicative : Takes names n .multiplicative
      (chain multiplicativeOp? (power (unary p))) :=
    takes_chain readsLevel_multiplicative rfl rfl rfl (takes_power (takes_unary hp))
  exact takes_chain readsLevel_additive rfl rfl rfl hmultiplicative

theorem takes_expressionWithin (names : Names) (depth : Nat) :
    Takes names depth .comparison (expressionWithin names depth) := by
  induction depth with
  | zero => exact takes_zero fun e rest h => by cases h
  | succ depth ih => exact takes_comparison (takes_additive (takes_operand ih))

/-- The parser of expressions takes exactly what the grammar derives. -/
theorem expression_takes (names : Names) (tokens : List Token) (e : Expr) (rest : List Token) :
    expression names tokens = .ok (e, rest) <->
      exists u, tokens = u ++ rest ∧ Derives names .comparison u e ∧
        ¬ Level.comparison.Continues (frontToken rest).kind :=
  takes_expressionWithin names tokens.length tokens (Nat.le_refl _) e rest

theorem expression_chained {op op' : BinaryOp} {t t' : Token} (hlevel : op.level = .comparison)
    (hlevel' : op'.level = .comparison) (ht : t.kind = op.token) (ht' : t'.kind = op'.token)
    {u v : List Token} {left right : Expr} (hu : Derives names .additive u left)
    (hv : Derives names .additive v right) (rest : List Token) :
    expression names (u ++ t :: (v ++ t' :: rest)) =
      .error { cause := .chainedComparison, pos := some t'.pos } := by
  have hlength : (u ++ t :: (v ++ t' :: rest)).length =
      (u ++ v ++ t' :: rest).length + 1 := by
    simp only [List.length_append, List.length_cons]
    omega
  change expressionWithin names (u ++ t :: (v ++ t' :: rest)).length _ = _
  rw [hlength]
  exact comparison_chained (takes_additive (takes_operand (takes_expressionWithin names _)))
    hlevel hlevel' ht ht' hu hv (Nat.le_of_eq hlength)

end Parse
end Scriptlet
