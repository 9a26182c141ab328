import Scriptlet.Parser.Expression

/-!
# The grammar of expressions

Every binary operator belongs to a level.  A level says how tight its two operands have
to be, and that alone makes it group to the left, to the right or not at all.  A list of
tokens derives the trees that the rules give it; nothing here says how a tree is found.
-/

namespace Scriptlet

/-- The levels of an expression, from the weakest to the tightest. -/
inductive Level where
  | comparison | additive | multiplicative | power | unary | operand
deriving DecidableEq, Repr

namespace Level

def rank : Level -> Nat
  | comparison => 0
  | additive => 1
  | multiplicative => 2
  | power => 3
  | unary => 4
  | operand => 5

def next? : Level -> Option Level
  | comparison => some additive
  | additive => some multiplicative
  | multiplicative => some power
  | power => some unary
  | unary => some operand
  | operand => none

/-- What stands before a binary operator of the level: an expression of the level itself
where operators group to the left. -/
def left : Level -> Level
  | comparison => additive
  | additive => additive
  | multiplicative => multiplicative
  | power => unary
  | unary => operand
  | operand => operand

/-- What stands behind a binary operator of the level: an expression of the level itself
where operators group to the right. -/
def right : Level -> Level
  | comparison => additive
  | additive => multiplicative
  | multiplicative => power
  | power => power
  | unary => operand
  | operand => operand

end Level

namespace BinaryOp

def level : BinaryOp -> Level
  | equal | notEqual | less | greater | lessEqual | greaterEqual => .comparison
  | add | sub | or | xor => .additive
  | mul | div | and => .multiplicative
  | pow => .power

def token : BinaryOp -> TokenKind
  | equal => .equal
  | notEqual => .notEqual
  | less => .less
  | greater => .greater
  | lessEqual => .lessEqual
  | greaterEqual => .greaterEqual
  | add => .plus
  | sub => .minus
  | or => .orWord
  | xor => .xorWord
  | mul => .star
  | div => .slash
  | and => .andWord
  | pow => .caret

theorem token_injective {op op' : BinaryOp} (h : op.token = op'.token) : op = op' := by
  cases op <;> cases op' <;> first | rfl | cases h

end BinaryOp

def UnaryOp.token : UnaryOp -> TokenKind
  | plus => .plus
  | neg => .minus
  | not => .notWord

theorem UnaryOp.token_ne_end (op : UnaryOp) : op.token ≠ .endOfInput := by
  cases op <;> decide

theorem UnaryOp.token_injective {op op' : UnaryOp} (h : op.token = op'.token) : op = op' := by
  cases op <;> cases op' <;> first | rfl | cases h

/-- Whether a token of the kind, behind an expression of the level, makes more of it: it
is a binary operator of the level or of a tighter one. -/
def Level.Continues (level : Level) (kind : TokenKind) : Prop :=
  exists op : BinaryOp, op.token = kind ∧ level.rank ≤ op.level.rank

theorem BinaryOp.token_ne_end (op : BinaryOp) : op.token ≠ .endOfInput := by
  cases op <;> decide

theorem BinaryOp.rank_lt_unary (op : BinaryOp) : op.level.rank < Level.unary.rank := by
  cases op <;> decide

namespace Level

theorem rank_next {level next : Level} (h : level.next? = some next) :
    next.rank = level.rank + 1 := by
  cases level <;> cases h <;> rfl

theorem rank_le_operand (level : Level) : level.rank ≤ operand.rank := by
  cases level <;> decide

theorem exists_next {level : Level} (h : level.rank < operand.rank) :
    exists next, level.next? = some next := by
  cases level <;> first | exact ⟨_, rfl⟩ | exact absurd h (by decide)

theorem rank_injective {level level' : Level} (h : level.rank = level'.rank) :
    level = level' := by
  cases level <;> cases level' <;> first | rfl | cases h

theorem not_continues_unary (kind : TokenKind) : ¬ unary.Continues kind :=
  fun ⟨op, _, hrank⟩ => Nat.not_le_of_lt op.rank_lt_unary hrank

theorem not_continues_operand (kind : TokenKind) : ¬ operand.Continues kind :=
  fun ⟨op, _, hrank⟩ => Nat.not_le_of_lt (Nat.lt_succ_of_lt op.rank_lt_unary) hrank

theorem not_continues_of_ne {level : Level} {kind : TokenKind}
    (hkind : forall op : BinaryOp, op.token ≠ kind) : ¬ level.Continues kind :=
  fun ⟨op, hop, _⟩ => hkind op hop

theorem continues_iff {level next : Level} (h : level.next? = some next) (kind : TokenKind) :
    level.Continues kind <->
      next.Continues kind ∨ exists op : BinaryOp, op.token = kind ∧ op.level = level := by
  constructor
  · rintro ⟨op, hop, hrank⟩
    rcases Nat.eq_or_lt_of_le hrank with heq | hlt
    · exact .inr ⟨op, hop, (rank_injective heq).symm⟩
    · exact .inl ⟨op, hop, Nat.le_trans (Nat.le_of_eq (rank_next h)) hlt⟩
  · rintro (⟨op, hop, hrank⟩ | ⟨op, hop, rfl⟩)
    · exact ⟨op, hop, Nat.le_of_succ_le (Nat.le_trans (Nat.le_of_eq (rank_next h).symm) hrank)⟩
    · exact ⟨op, hop, Nat.le_refl _⟩

theorem not_continues_next {op : BinaryOp} {next : Level} (h : op.level.next? = some next) :
    ¬ next.Continues op.token := by
  rintro ⟨op', hop, hrank⟩
  rw [BinaryOp.token_injective hop, rank_next h] at hrank
  exact Nat.not_succ_le_self _ hrank

end Level

/-- Lists of tokens in a row, with commas between them. -/
inductive Separated : List (List Token) -> List Token -> Prop where
  | nil : Separated [] []
  | single {u : List Token} : Separated [u] u
  | cons {u v w : List Token} {us : List (List Token)} {comma : Token} :
      comma.kind = .comma -> Separated (v :: us) w ->
      Separated (u :: v :: us) (u ++ comma :: w)

/-- The tokens derive the tree as an expression of the level.  A tree stands where its
first token or, of a binary operation, its operator stands; in parentheses, where they
open.  A call gives as many arguments as its function has parameters. -/
inductive Derives (names : Names) : Level -> List Token -> Expr -> Prop where
  | tighter {level next : Level} {u : List Token} {e : Expr} : level.next? = some next ->
      Derives names next u e -> Derives names level u e
  | binary {level : Level} {op : BinaryOp} {t : Token} {u v : List Token} {l r : Expr} :
      op.level = level -> t.kind = op.token ->
      Derives names level.left u l -> Derives names level.right v r ->
      Derives names level (u ++ t :: v) (.binary t.pos op l r)
  | unary {op : UnaryOp} {t : Token} {u : List Token} {e : Expr} : t.kind = op.token ->
      Derives names .unary u e -> Derives names .unary (t :: u) (.unary t.pos op e)
  | literal {t : Token} {value : Value} : Parse.literalValue? t = some value ->
      Derives names .operand [t] (.literal t.pos value)
  | const {t : Token} {b : Binding} : t.kind = .name -> names.find t.text = some b ->
      b.category = .const -> Derives names .operand [t] (.const t.pos b.id)
  | var {t : Token} {b : Binding} : t.kind = .name -> names.find t.text = some b ->
      b.category = .var -> Derives names .operand [t] (.var t.pos b.id)
  | call {t opening closing : Token} {b : Binding} {u : List Token}
      {args : List (List Token × Expr)} : t.kind = .name -> names.find t.text = some b ->
      b.category = .function -> (names.program.function b.id).result = b.type ->
      opening.kind = .openParen -> Separated (args.map (·.1)) u ->
      (forall arg, arg ∈ args -> Derives names .comparison arg.1 arg.2) ->
      closing.kind = .closeParen ->
      args.length = (names.program.function b.id).params.length ->
      Derives names .operand (t :: opening :: (u ++ [closing]))
        (.call t.pos b.id (args.map (·.2)))
  | group {opening closing : Token} {u : List Token} {e : Expr} :
      opening.kind = .openParen -> Derives names .comparison u e ->
      closing.kind = .closeParen ->
      Derives names .operand (opening :: (u ++ [closing])) (e.withPos opening.pos)

/-!
# Fronts

An expression starts with a token of its own, and one that is as tight as an operand
starts with no prefix operator.
-/

theorem frontToken_append {u : List Token} (hu : u ≠ []) (rest : List Token) :
    frontToken (u ++ rest) = frontToken u := by
  cases u with
  | nil => exact absurd rfl hu
  | cons t u => rfl

@[simp] theorem frontToken_cons (t : Token) (rest : List Token) :
    frontToken (t :: rest) = t :=
  rfl

theorem dropFront_cons {t : Token} {kind : TokenKind} (ht : t.kind = kind)
    (hkind : kind ≠ .endOfInput) (rest : List Token) : dropFront (t :: rest) = rest := by
  have hend : t.isEnd = false := by
    simpa [Token.isEnd] using fun h => hkind (ht.symm.trans h)
  simp [dropFront, hend]

theorem exists_front {tokens : List Token} {kind : TokenKind}
    (hfront : (frontToken tokens).kind = kind) (hkind : kind ≠ .endOfInput) :
    exists t rest, tokens = t :: rest ∧ t.kind = kind := by
  cases tokens with
  | nil => exact absurd hfront.symm hkind
  | cons t rest => exact ⟨t, rest, rfl, hfront⟩

namespace Derives

variable {names : Names} {level : Level} {u : List Token} {e : Expr}

theorem ne_nil (h : Derives names level u e) : u ≠ [] := by
  induction h with
  | tighter _ _ ih => exact ih
  | binary | unary | literal | const | var | call | group => simp

theorem front_ne_closeParen (h : Derives names level u e) :
    (frontToken u).kind ≠ .closeParen := by
  induction h with
  | tighter _ _ ih => exact ih
  | binary _ _ hl _ ihl _ => rwa [frontToken_append hl.ne_nil]
  | @unary op t u e ht _ _ =>
      rw [frontToken_cons, ht]
      cases op <;> decide
  | @literal t value hvalue =>
      intro hfront
      simp [Parse.literalValue?, show t.kind = .closeParen from hfront] at hvalue
  | const hname _ _ | var hname _ _ | call hname _ _ _ _ _ _ _ | group hname _ _ =>
      exact fun hfront => absurd (hname.symm.trans hfront) (by decide)

theorem front_operand (h : Derives names level u e) (hlevel : level = .operand) (op : UnaryOp) :
    (frontToken u).kind ≠ op.token := by
  cases h with
  | tighter hnext _ => subst hlevel; cases hnext
  | @binary level op' _ _ _ _ _ hop _ _ _ =>
      subst hlevel
      cases op' <;> cases hop
  | unary _ _ => cases hlevel
  | @literal t value hvalue =>
      intro hfront
      change t.kind = op.token at hfront
      cases op <;> simp [Parse.literalValue?, hfront, UnaryOp.token] at hvalue
  | const hname _ _ | var hname _ _ | call hname _ _ _ _ _ _ _ _ | group hname _ _ =>
      intro hfront
      have hkind := hname.symm.trans hfront
      cases op <;> cases hkind

theorem weaken {level' : Level} (h : Derives names level u e) (hrank : level'.rank ≤ level.rank) :
    Derives names level' u e := by
  obtain ⟨k, hk⟩ := Nat.le.dest hrank
  induction k generalizing level' with
  | zero => exact Level.rank_injective hk ▸ h
  | succ k ih =>
      obtain ⟨next, hnext⟩ := Level.exists_next
        (Nat.lt_of_lt_of_le (by omega : level'.rank < level.rank) level.rank_le_operand)
      have hstep := Level.rank_next hnext
      exact .tighter hnext (ih (by omega) (by omega))

theorem operand_cases {t : Token} (h : Derives names .operand (t :: u) e) :
    (exists value, Parse.literalValue? t = some value ∧ u = [] ∧ e = .literal t.pos value) ∨
      t.kind = .name ∨
      (t.kind = .openParen ∧ exists v closing inner, u = v ++ [closing] ∧
        closing.kind = .closeParen ∧ Derives names .comparison v inner ∧
        e = inner.withPos t.pos) := by
  generalize hw : t :: u = w at h
  cases h with
  | tighter hnext _ => cases hnext
  | @binary _ op _ _ _ _ _ hlevel _ _ _ => cases op <;> cases hlevel
  | literal hvalue =>
      cases hw
      exact .inl ⟨_, hvalue, rfl, rfl⟩
  | const hname _ _ | var hname _ _ | call hname _ _ _ _ _ _ _ =>
      cases hw
      exact .inr (.inl hname)
  | group hopening hinner hclosing =>
      cases hw
      exact .inr (.inr ⟨hopening, _, _, _, rfl, hclosing, hinner, rfl⟩)

end Derives

/-!
# Arguments
-/

def DerivesArgs (names : Names) (u : List Token) (args : List Expr) : Prop :=
  exists parts : List (List Token × Expr), Separated (parts.map (·.1)) u ∧
    (forall part, part ∈ parts -> Derives names .comparison part.1 part.2) ∧
    args = parts.map (·.2)

namespace DerivesArgs

variable {names : Names} {u v : List Token} {e : Expr} {args : List Expr}

theorem nil : DerivesArgs names [] [] :=
  ⟨[], .nil, by simp, rfl⟩

theorem single (h : Derives names .comparison u e) : DerivesArgs names u [e] :=
  ⟨[(u, e)], .single, by simpa using h, rfl⟩

theorem cons {comma : Token} (h : Derives names .comparison u e) (hcomma : comma.kind = .comma)
    (hargs : DerivesArgs names v args) (hne : args ≠ []) :
    DerivesArgs names (u ++ comma :: v) (e :: args) := by
  obtain ⟨parts, hseparated, hparts, rfl⟩ := hargs
  cases parts with
  | nil => exact absurd rfl hne
  | cons part parts =>
      refine ⟨(u, e) :: part :: parts, .cons hcomma hseparated, fun p hp => ?_, rfl⟩
      rcases List.mem_cons.mp hp with rfl | hp
      · exact h
      · exact hparts p hp

theorem cases_on (h : DerivesArgs names u args) : (u = [] ∧ args = []) ∨
    (exists e, args = [e] ∧ Derives names .comparison u e) ∨
    exists v comma w e rest, u = v ++ comma :: w ∧ args = e :: rest ∧ comma.kind = .comma ∧
      rest ≠ [] ∧ Derives names .comparison v e ∧ DerivesArgs names w rest := by
  obtain ⟨parts, hseparated, hparts, rfl⟩ := h
  match parts, hseparated with
  | [], .nil => exact .inl ⟨rfl, rfl⟩
  | [part], .single => exact .inr (.inl ⟨part.2, rfl, hparts part (by simp)⟩)
  | part :: part' :: parts, .cons hcomma hrest =>
      refine .inr (.inr ⟨_, _, _, _, _, rfl, rfl, hcomma, by simp, hparts part (by simp), ?_⟩)
      exact ⟨part' :: parts, hrest, fun p hp => hparts p (List.mem_cons_of_mem _ hp), rfl⟩

theorem front_ne_closeParen (h : DerivesArgs names u args) (hne : args ≠ [])
    (rest : List Token) : (frontToken (u ++ rest)).kind ≠ .closeParen := by
  rcases h.cases_on with ⟨_, rfl⟩ | ⟨e, rfl, he⟩ | ⟨v, comma, w, e, others, rfl, rfl, _, _, he, _⟩
  · exact absurd rfl hne
  · rw [frontToken_append he.ne_nil]
    exact he.front_ne_closeParen
  · rw [List.append_assoc, frontToken_append he.ne_nil]
    exact he.front_ne_closeParen

end DerivesArgs
end Scriptlet
