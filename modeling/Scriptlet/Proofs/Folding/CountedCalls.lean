import Scriptlet.Proofs.Folding.CompileTimeInvariants

/-!
# Counting calls and rounds

What is done at compile time, by rules that have no bound of their own: a call or a round of
a loop is entered as long as the budget lets it be, and each rule says how many are entered
on the way.  What the rules come to takes no more calls and rounds than the budget has, and it is
what the evaluator answers.
-/

namespace Scriptlet

def ConstState.withBudget (s : ConstState) (budget : Nat) : ConstState :=
  { s with budget := budget }

def ConstState.push (s : ConstState) (frame : ConstFrame) : ConstState :=
  { s with frames := frame :: s.frames }

namespace ConstEval

variable {α β : Type}

/-- What is done behind an answer; nothing is if there is none. -/
def after (r : Option (α × ConstState)) (f : α -> ConstEval β) : Option (β × ConstState) :=
  r.bind fun answer => f answer.1 answer.2

theorem bind_of_eq {x : ConstEval α} {s : ConstState} {r : Option (α × ConstState)}
    (h : x s = r) (f : α -> ConstEval β) : (x >>= f) s = after r f :=
  congrArg (after · f) h

def holds (r : Option (Value × ConstState)) : Option (Bool × ConstState) :=
  after r fun v => ofOption v.truth?

def store (p : Program) (id : VarId) (v : Value) : ConstEval ConstFlow := do
  writeVar p id v
  return .next

def frameFor (p : Program) (f : FunId) (values : List Value) : ConstFrame :=
  { owner := f, values := Valuation.ofList (((p.function f).params.map (·.var)).zip values) }

def leave (result : ValueType) (flow : ConstFlow) : ConstEval (Option Value) := do
  modify fun s => { s with frames := s.frames.tail }
  ofOption (yielded? result flow)

end ConstEval

open ConstEval

/-!
# The rules
-/

mutual

/-- From the state, the value of the expression takes so many calls and rounds; there is no
answer if it is not known. -/
inductive Expr.Costs (p : Program) :
    Expr -> ConstState -> Nat -> Option (Value × ConstState) -> Prop where
  | literal {pos v s} : Expr.Costs p (.literal pos v) s 0 (some (v, s))
  | const {pos id s} : Expr.Costs p (.const pos id) s 0 (some ((p.constant id).value, s))
  | var {pos id s} : Expr.Costs p (.var pos id) s 0 (readVar p id s)
  | unary {pos op operand s n r} : operand.Costs p s n r ->
      Expr.Costs p (.unary pos op operand) s n (after r fun v => ofOperator (op.apply v))
  | left {pos op left right s n} : left.Costs p s n none ->
      Expr.Costs p (.binary pos op left right) s n none
  | binary {pos op left right s n l s₁ m r} : left.Costs p s n (some (l, s₁)) ->
      right.Costs p s₁ m r ->
      Expr.Costs p (.binary pos op left right) s (n + m)
        (after r fun v => ofOperator (op.apply l v))
  | native {pos f args s} : (p.function f).isNative = true ->
      Expr.Costs p (.call pos f args) s 0 none
  | call {pos f args s n r} : (p.function f).isNative = false -> CallCosts p f args s n r ->
      Expr.Costs p (.call pos f args) s n (after r ofOption)

inductive Expr.ListCosts (p : Program) :
    List Param -> List Expr -> ConstState -> Nat -> Option (List Value × ConstState) -> Prop where
  | done {params args s} : params = [] ∨ args = [] ->
      Expr.ListCosts p params args s 0 (some ([], s))
  | first {param params arg args s n} : arg.Costs p s n none ->
      Expr.ListCosts p (param :: params) (arg :: args) s n none
  | refused {param params arg args s n v s₁} : arg.Costs p s n (some (v, s₁)) ->
      param.type.accepts v.type = false -> Expr.ListCosts p (param :: params) (arg :: args) s n none
  | next {param params arg args s n v s₁ m r} : arg.Costs p s n (some (v, s₁)) ->
      param.type.accepts v.type = true -> Expr.ListCosts p params args s₁ m r ->
      Expr.ListCosts p (param :: params) (arg :: args) s (n + m)
        (after r fun values => pure (v :: values))

inductive CallCosts (p : Program) :
    FunId -> List Expr -> ConstState -> Nat -> Option (Option Value × ConstState) -> Prop where
  | arguments {f args s n} : Expr.ListCosts p (p.function f).params args s n none ->
      CallCosts p f args s n none
  | invoke {f args s n values s₁ m r} :
      Expr.ListCosts p (p.function f).params args s n (some (values, s₁)) ->
      InvokeCosts p f values s₁ m r -> CallCosts p f args s (n + m) r

/-- A call on values.  It counts as soon as the budget lets it in. -/
inductive InvokeCosts (p : Program) :
    FunId -> List Value -> ConstState -> Nat -> Option (Option Value × ConstState) -> Prop where
  | stopped {f values s} : spend s = none -> InvokeCosts p f values s 0 none
  | native {f values s s₁} : spend s = some ((), s₁) -> (p.function f).body = none ->
      InvokeCosts p f values s 1 none
  | body {f values s s₁ block n r} : spend s = some ((), s₁) ->
      (p.function f).body = some block ->
      Stmt.ListCosts p block.body (s₁.push (frameFor p f values)) n r ->
      InvokeCosts p f values s (1 + n) (after r (leave (p.function f).result))

inductive Stmt.Costs (p : Program) :
    Stmt -> ConstState -> Nat -> Option (ConstFlow × ConstState) -> Prop where
  | constDecl {pos id s} : Stmt.Costs p (.constDecl pos id) s 0 (some (.next, s))
  | funDecl {pos f s} : Stmt.Costs p (.funDecl pos f) s 0 (some (.next, s))
  | varDecl {pos id s} : Stmt.Costs p (.varDecl pos id none) s 0 (some (.next, s))
  | initialized {pos id init s n r} : init.Costs p s n r ->
      Stmt.Costs p (.varDecl pos id (some init)) s n (after r (store p id))
  | block {head body s n r} : Stmt.ListCosts p body s n r -> Stmt.Costs p (.block head body) s n r
  | ifStopped {pos cond head body s n r} : cond.Costs p s n r -> holds r = none ->
      Stmt.Costs p (.ifThen pos cond head body) s n none
  | ifFalse {pos cond head body s n r s₁} : cond.Costs p s n r -> holds r = some (false, s₁) ->
      Stmt.Costs p (.ifThen pos cond head body) s n (some (.next, s₁))
  | ifTrue {pos cond head body s n r s₁ m r'} : cond.Costs p s n r ->
      holds r = some (true, s₁) -> Stmt.ListCosts p body s₁ m r' ->
      Stmt.Costs p (.ifThen pos cond head body) s (n + m) r'
  | whileDo {pos cond head body s n r} : LoopCosts p cond body s n r ->
      Stmt.Costs p (.whileDo pos cond head body) s n r
  | ret {pos value s n r} : value.Costs p s n r ->
      Stmt.Costs p (.ret pos value) s n (after r fun v => pure (.returned v))
  | assign {pos target value s n r} : value.Costs p s n r ->
      Stmt.Costs p (.assign pos target value) s n (after r (store p target))
  | native {pos f args s} : (p.function f).isNative = true ->
      Stmt.Costs p (.call pos f args) s 0
        (if (p.function f).result = .none then some (.next, s) else none)
  | call {pos f args s n r} : (p.function f).isNative = false -> CallCosts p f args s n r ->
      Stmt.Costs p (.call pos f args) s n (after r fun _ => pure .next)
  | async {pos target f args s} : Stmt.Costs p (.async pos target f args) s 0 none
  | await {pos target s} : Stmt.Costs p (.await pos target) s 0 none

/-- A loop, which counts each round that the budget lets it begin. -/
inductive LoopCosts (p : Program) :
    Expr -> List Stmt -> ConstState -> Nat -> Option (ConstFlow × ConstState) -> Prop where
  | unknown {cond body s n r} : cond.Costs p s n r -> holds r = none ->
      LoopCosts p cond body s n none
  | done {cond body s n r s₁} : cond.Costs p s n r -> holds r = some (false, s₁) ->
      LoopCosts p cond body s n (some (.next, s₁))
  | stopped {cond body s n r s₁} : cond.Costs p s n r -> holds r = some (true, s₁) ->
      spend s₁ = none -> LoopCosts p cond body s n none
  | last {cond body s n r s₁ s₂ m r'} : cond.Costs p s n r -> holds r = some (true, s₁) ->
      spend s₁ = some ((), s₂) -> Stmt.ListCosts p body s₂ m r' ->
      (forall s₃, r' ≠ some (.next, s₃)) -> LoopCosts p cond body s (n + (1 + m)) r'
  | round {cond body s n r s₁ s₂ m s₃ k r'} : cond.Costs p s n r ->
      holds r = some (true, s₁) -> spend s₁ = some ((), s₂) ->
      Stmt.ListCosts p body s₂ m (some (.next, s₃)) -> LoopCosts p cond body s₃ k r' ->
      LoopCosts p cond body s (n + (1 + (m + k))) r'

inductive Stmt.ListCosts (p : Program) :
    List Stmt -> ConstState -> Nat -> Option (ConstFlow × ConstState) -> Prop where
  | nil {s} : Stmt.ListCosts p [] s 0 (some (.next, s))
  | last {st rest s n r} : st.Costs p s n r -> (forall s₁, r ≠ some (.next, s₁)) ->
      Stmt.ListCosts p (st :: rest) s n r
  | next {st rest s n s₁ m r} : st.Costs p s n (some (.next, s₁)) ->
      Stmt.ListCosts p rest s₁ m r -> Stmt.ListCosts p (st :: rest) s (n + m) r

end

/-!
# The budget
-/

section Budget

variable {α β : Type} {p : Program} {s s₁ : ConstState} {n m : Nat}
  {r : Option (α × ConstState)}

def Free (x : ConstEval α) : Prop :=
  forall s budget, x (s.withBudget budget) = (x s).map fun a => (a.1, a.2.withBudget budget)

theorem free_pure (a : α) : Free (pure a : ConstEval α) :=
  fun _ _ => rfl

theorem free_ofOption (x : Option α) : Free (ofOption x) := by
  intro s budget
  cases x <;> rfl

theorem Free.bind {x : ConstEval α} {f : α -> ConstEval β} (hx : Free x)
    (hf : forall a, Free (f a)) : Free (x >>= f) := by
  intro s budget
  rw [bind_of_eq (hx s budget), bind_of_eq rfl]
  cases x s with
  | none => rfl
  | some a => exact hf a.1 a.2 budget

theorem free_readVar (id : VarId) : Free (readVar p id) := by
  intro s budget
  unfold readVar frameOf
  simp only [ConstState.withBudget, Option.map_map, Function.comp_def]

theorem free_writeVar (id : VarId) (v : Value) : Free (writeVar p id v) := by
  intro s budget
  unfold writeVar
  by_cases htype : (p.variableAt id).type = v.type
  · rw [if_pos htype, if_pos htype]
    cases (p.variableAt id).owner with
    | none => rfl
    | some owner => simp only [ConstState.withBudget, Option.map_map, Function.comp_def]
  · rw [if_neg htype, if_neg htype]
    rfl

theorem free_store (id : VarId) (v : Value) : Free (store p id v) :=
  (free_writeVar id v).bind fun _ => free_pure _

theorem free_leave (result : ValueType) (flow : ConstFlow) : Free (leave result flow) := by
  apply Free.bind
  · exact fun _ _ => rfl
  · exact fun _ => free_ofOption _

theorem Free.budget {x : ConstEval α} (hx : Free x) {a : α} (h : x s = some (a, s₁)) :
    s₁.budget = s.budget := by
  have hsame : x s = (x s).map fun a => (a.1, a.2.withBudget s.budget) := hx s s.budget
  rw [h] at hsame
  exact congrArg (·.2.budget) (Option.some.inj hsame)

structure Pays (s : ConstState) (n : Nat) (r : Option (α × ConstState)) : Prop where
  within : n ≤ s.budget
  left : forall a s₁, r = some (a, s₁) -> s₁.budget + n = s.budget

theorem pays_nothing (s : ConstState) : Pays s 0 (none : Option (α × ConstState)) :=
  ⟨Nat.zero_le _, nofun⟩

theorem Free.pays {x : ConstEval α} (hx : Free x) (s : ConstState) : Pays s 0 (x s) :=
  ⟨Nat.zero_le _, fun _ _ h => hx.budget h⟩

theorem pays_pure (a : α) (s : ConstState) : Pays s 0 (some (a, s)) :=
  (free_pure a).pays s

theorem Pays.le {a : α} (h : Pays s n (some (a, s₁))) : s₁.budget ≤ s.budget :=
  (h.left a s₁ rfl) ▸ Nat.le_add_right _ _

theorem Pays.stop (h : Pays s n r) : Pays s n (none : Option (β × ConstState)) :=
  ⟨h.within, nofun⟩

theorem Pays.next {a : α} {r' : Option (β × ConstState)} (h : Pays s n (some (a, s₁)))
    (h' : Pays s₁ m r') : Pays s (n + m) r' where
  within := by
    have hleft := h.left a s₁ rfl
    have hwithin := h'.within
    omega
  left := by
    intro b s₂ hr
    have hleft := h.left a s₁ rfl
    have hrest := h'.left b s₂ hr
    omega

theorem Pays.after (h : Pays s n r) {f : α -> ConstEval β} (hf : forall a, Free (f a)) :
    Pays s n (after r f) := by
  cases r with
  | none => exact h.stop
  | some answer => exact h.next ((hf answer.1).pays answer.2)

theorem pays_spend (h : spend s = some ((), s₁)) : Pays s 1 (some ((), s₁)) := by
  unfold spend at h
  split at h
  · cases h
  · rename_i budget hbudget
    cases h
    refine ⟨?_, ?_⟩
    · omega
    · intro _ _ hr
      cases hr
      exact hbudget.symm

theorem Pays.pushed {frame : ConstFrame} (h : Pays (s.push frame) n r) : Pays s n r :=
  ⟨h.within, h.left⟩

theorem Pays.holds {r : Option (Value × ConstState)} {b : Bool} (h : Pays s n r)
    (hb : holds r = some (b, s₁)) : Pays s n (some (b, s₁)) :=
  hb ▸ h.after fun v => free_ofOption v.truth?

end Budget

section Rules

variable {p : Program}

mutual

theorem Expr.Costs.pays : forall {e : Expr} {s : ConstState} {n : Nat}
    {r : Option (Value × ConstState)}, e.Costs p s n r -> Pays s n r
  | _, _, _, _, .literal => pays_pure _ _
  | _, _, _, _, .const => pays_pure _ _
  | _, _, _, _, .var => (free_readVar _).pays _
  | _, _, _, _, .unary hoperand => hoperand.pays.after fun _ => free_ofOption _
  | _, _, _, _, .left hleft => hleft.pays
  | _, _, _, _, .binary hleft hright =>
      hleft.pays.next (hright.pays.after fun _ => free_ofOption _)
  | _, _, _, _, .native _ => pays_nothing _
  | _, _, _, _, .call _ hcall => hcall.pays.after free_ofOption

theorem Expr.ListCosts.pays : forall {params : List Param} {args : List Expr} {s : ConstState}
    {n : Nat} {r : Option (List Value × ConstState)}, Expr.ListCosts p params args s n r ->
    Pays s n r
  | _, _, _, _, _, .done _ => pays_pure _ _
  | _, _, _, _, _, .first harg => harg.pays.stop
  | _, _, _, _, _, .refused harg _ => harg.pays.stop
  | _, _, _, _, _, .next harg _ hrest => harg.pays.next (hrest.pays.after fun _ => free_pure _)

theorem CallCosts.pays : forall {f : FunId} {args : List Expr} {s : ConstState} {n : Nat}
    {r : Option (Option Value × ConstState)}, CallCosts p f args s n r -> Pays s n r
  | _, _, _, _, _, .arguments hargs => hargs.pays.stop
  | _, _, _, _, _, .invoke hargs hinvoke => hargs.pays.next hinvoke.pays

theorem InvokeCosts.pays : forall {f : FunId} {values : List Value} {s : ConstState} {n : Nat}
    {r : Option (Option Value × ConstState)}, InvokeCosts p f values s n r -> Pays s n r
  | _, _, _, _, _, .stopped _ => pays_nothing _
  | _, _, _, _, _, .native hspend _ => (pays_spend hspend).stop
  | _, _, _, _, _, .body hspend _ hbody =>
      (pays_spend hspend).next (hbody.pays.pushed.after (free_leave _))

theorem Stmt.Costs.pays : forall {st : Stmt} {s : ConstState} {n : Nat}
    {r : Option (ConstFlow × ConstState)}, st.Costs p s n r -> Pays s n r
  | _, _, _, _, .constDecl => pays_pure _ _
  | _, _, _, _, .funDecl => pays_pure _ _
  | _, _, _, _, .varDecl => pays_pure _ _
  | _, _, _, _, .initialized hinit => hinit.pays.after fun _ => free_store _ _
  | _, _, _, _, .block hbody => hbody.pays
  | _, _, _, _, .ifStopped hcond _ => hcond.pays.stop
  | _, _, _, _, .ifFalse hcond hfalse => (hcond.pays.holds hfalse).next (pays_pure _ _)
  | _, _, _, _, .ifTrue hcond htrue hbody => (hcond.pays.holds htrue).next hbody.pays
  | _, _, _, _, .whileDo hloop => hloop.pays
  | _, _, _, _, .ret hvalue => hvalue.pays.after fun _ => free_pure _
  | _, _, _, _, .assign hvalue => hvalue.pays.after fun _ => free_store _ _
  | _, _, _, _, .native _ => by
      split
      · exact pays_pure _ _
      · exact pays_nothing _
  | _, _, _, _, .call _ hcall => hcall.pays.after fun _ => free_pure _
  | _, _, _, _, .async => pays_nothing _
  | _, _, _, _, .await => pays_nothing _

theorem LoopCosts.pays : forall {cond : Expr} {body : List Stmt} {s : ConstState} {n : Nat}
    {r : Option (ConstFlow × ConstState)}, LoopCosts p cond body s n r -> Pays s n r
  | _, _, _, _, _, .unknown hcond _ => hcond.pays.stop
  | _, _, _, _, _, .done hcond hfalse => (hcond.pays.holds hfalse).next (pays_pure _ _)
  | _, _, _, _, _, .stopped hcond _ _ => hcond.pays.stop
  | _, _, _, _, _, .last hcond htrue hspend hbody _ =>
      (hcond.pays.holds htrue).next ((pays_spend hspend).next hbody.pays)
  | _, _, _, _, _, .round hcond htrue hspend hbody hagain =>
      (hcond.pays.holds htrue).next ((pays_spend hspend).next (hbody.pays.next hagain.pays))

theorem Stmt.ListCosts.pays : forall {body : List Stmt} {s : ConstState} {n : Nat}
    {r : Option (ConstFlow × ConstState)}, Stmt.ListCosts p body s n r -> Pays s n r
  | _, _, _, _, .nil => pays_pure _ _
  | _, _, _, _, .last hst _ => hst.pays
  | _, _, _, _, .next hst hrest => hst.pays.next hrest.pays

end

/-!
# The evaluator follows the rules
-/

theorem condition_of_eq {invoke : ConstEval.Invoke} {cond : Expr} {s : ConstState}
    {r : Option (Value × ConstState)} {a : Option (Bool × ConstState)}
    (h : expr p invoke cond s = r) (ha : holds r = a) : condition p invoke cond s = a :=
  (bind_of_eq h _).trans ha

theorem spend_of_budget {s : ConstState} (h : s.budget = 0) : spend s = none := by
  unfold spend
  rw [h]

theorem le_of_spend {s s₁ : ConstState} {bound : Nat} (h : spend s = some ((), s₁))
    (hs : s.budget ≤ bound) : s₁.budget ≤ bound - 1 := by
  have hpaid := (pays_spend h).left _ _ rfl
  omega

theorem after_last {r : Option (ConstFlow × ConstState)} (h : forall s, r ≠ some (.next, s))
    {k : ConstFlow -> ConstEval ConstFlow} (hk : forall v, k (.returned v) = pure (.returned v)) :
    after r k = r := by
  match r with
  | none => rfl
  | some (.next, s) => exact absurd rfl (h s)
  | some (.returned v, s) => exact congrFun (hk v) s

section Bounds

variable {cond : ConstEval Bool} {body : ConstEval ConstFlow} {limit : Nat} {s s₁ : ConstState}

theorem loopWithin_of_unknown (h : cond s = none) : loopWithin cond body limit s = none := by
  cases limit <;> exact bind_of_eq h _

theorem loopWithin_of_false (h : cond s = some (false, s₁)) :
    loopWithin cond body limit s = some (.next, s₁) := by
  cases limit <;> exact bind_of_eq h _

theorem loopWithin_of_true (h : cond s = some (true, s₁)) (hlimit : s₁.budget ≤ limit) :
    loopWithin cond body limit s = (do
      spend
      match ← body with
      | .next => loopWithin cond body (limit - 1)
      | .returned value => return .returned value) s₁ := by
  cases limit with
  | zero =>
      have hspent := spend_of_budget (Nat.le_zero.mp hlimit)
      exact (bind_of_eq h _).trans (bind_of_eq hspent _).symm
  | succ limit => exact bind_of_eq h _

theorem invokeWithin_of_budget {depth : Nat} (hs : s.budget ≤ depth) (f : FunId)
    (values : List Value) :
    invokeWithin p depth f values s = (do
      spend
      match (p.function f).body with
      | none => giveUp
      | some block => do
          let flow ← inFrame (frameFor p f values)
            (stmts p (depth - 1) (invokeWithin p (depth - 1)) block.body)
          ofOption (yielded? (p.function f).result flow)) s := by
  cases depth with
  | zero => exact (bind_of_eq (spend_of_budget (Nat.le_zero.mp hs)) _).symm
  | succ depth => rfl

theorem inFrame_of_eq {frame : ConstFrame} {r : Option (ConstFlow × ConstState)}
    (h : body (s.push frame) = r) (result : ValueType) :
    (do
      let flow ← inFrame frame body
      ofOption (yielded? result flow)) s = after r (leave result) := by
  rw [← h]
  unfold inFrame leave
  simp only [bind_assoc, pure_bind]
  rfl

end Bounds

mutual

theorem Expr.Costs.eval : forall {depth : Nat} {e : Expr} {s : ConstState} {n : Nat}
    {r : Option (Value × ConstState)}, e.Costs p s n r -> s.budget ≤ depth ->
    expr p (invokeWithin p depth) e s = r
  | _, _, _, _, _, .literal, _ => rfl
  | _, _, _, _, _, .const, _ => rfl
  | _, _, _, _, _, .var, _ => rfl
  | _, _, _, _, _, .unary hoperand, hs => bind_of_eq (hoperand.eval hs) _
  | _, _, _, _, _, .left hleft, hs => bind_of_eq (hleft.eval hs) _
  | _, _, _, _, _, .binary hleft hright, hs =>
      (bind_of_eq (hleft.eval hs) _).trans
        (bind_of_eq (hright.eval (Nat.le_trans hleft.pays.le hs)) _)
  | _, _, _, _, _, .native hnative, _ => by
      rw [expr, if_pos hnative]
      rfl
  | _, _, _, _, _, .call huser hcall, hs => by
      rw [expr, huser]
      exact hcall.eval hs _

theorem Expr.ListCosts.eval : forall {depth : Nat} {params : List Param} {args : List Expr}
    {s : ConstState} {n : Nat} {r : Option (List Value × ConstState)},
    Expr.ListCosts p params args s n r -> s.budget ≤ depth ->
    arguments p (invokeWithin p depth) params args s = r
  | _, _, _, _, _, _, .done hempty, _ => by
      rcases hempty with rfl | rfl
      · rw [arguments]
        · rfl
        · exact nofun
      · rw [arguments]
        · rfl
        · exact nofun
  | _, _, _, _, _, _, .first harg, hs => bind_of_eq (harg.eval hs) _
  | _, _, _, _, _, _, .refused harg hrefused, hs => by
      apply (bind_of_eq (harg.eval hs) _).trans
      show (if _ then _ else _ : ConstEval (List Value)) _ = _
      rw [hrefused]
      rfl
  | _, _, _, _, _, _, .next harg haccepted hrest, hs => by
      apply (bind_of_eq (harg.eval hs) _).trans
      show (if _ then _ else _ : ConstEval (List Value)) _ = _
      rw [haccepted]
      exact bind_of_eq (hrest.eval (Nat.le_trans harg.pays.le hs)) _

theorem CallCosts.eval {β : Type} : forall {depth : Nat} {f : FunId} {args : List Expr}
    {s : ConstState} {n : Nat} {r : Option (Option Value × ConstState)},
    CallCosts p f args s n r -> s.budget ≤ depth -> forall k : Option Value -> ConstEval β,
    (do
      let values ← arguments p (invokeWithin p depth) (p.function f).params args
      let value ← invokeWithin p depth f values
      k value) s = after r k
  | _, _, _, _, _, _, .arguments hargs, hs, _ => bind_of_eq (hargs.eval hs) _
  | _, _, _, _, _, _, .invoke hargs hinvoke, hs, k =>
      (bind_of_eq (hargs.eval hs) _).trans
        (bind_of_eq (hinvoke.eval (Nat.le_trans hargs.pays.le hs)) k)

theorem InvokeCosts.eval : forall {depth : Nat} {f : FunId} {values : List Value}
    {s : ConstState} {n : Nat} {r : Option (Option Value × ConstState)},
    InvokeCosts p f values s n r -> s.budget ≤ depth -> invokeWithin p depth f values s = r
  | _, _, _, _, _, _, .stopped hspend, hs =>
      (invokeWithin_of_budget hs _ _).trans (bind_of_eq hspend _)
  | _, _, _, _, _, _, .native hspend hnone, hs => by
      apply ((invokeWithin_of_budget hs _ _).trans (bind_of_eq hspend _)).trans
      simp only [after, Option.bind_some, hnone]
      rfl
  | _, _, _, _, _, _, .body hspend hblock hbody, hs => by
      apply ((invokeWithin_of_budget hs _ _).trans (bind_of_eq hspend _)).trans
      simp only [after, Option.bind_some, hblock]
      have hle := le_of_spend hspend hs
      exact inFrame_of_eq (hbody.eval hle) _

theorem Stmt.Costs.eval : forall {depth : Nat} {st : Stmt} {s : ConstState} {n : Nat}
    {r : Option (ConstFlow × ConstState)}, st.Costs p s n r -> s.budget ≤ depth ->
    stmt p depth (invokeWithin p depth) st s = r
  | _, _, _, _, _, .constDecl, _ => rfl
  | _, _, _, _, _, .funDecl, _ => rfl
  | _, _, _, _, _, .varDecl, _ => rfl
  | _, _, _, _, _, .initialized hinit, hs => bind_of_eq (hinit.eval hs) _
  | _, _, _, _, _, .block hbody, hs => hbody.eval hs
  | _, _, _, _, _, .ifStopped hcond hstop, hs =>
      bind_of_eq (condition_of_eq (hcond.eval hs) hstop) _
  | _, _, _, _, _, .ifFalse hcond hfalse, hs =>
      bind_of_eq (condition_of_eq (hcond.eval hs) hfalse) _
  | _, _, _, _, _, .ifTrue hcond htrue hbody, hs =>
      (bind_of_eq (condition_of_eq (hcond.eval hs) htrue) _).trans
        (hbody.eval (Nat.le_trans (hcond.pays.holds htrue).le hs))
  | _, _, _, _, _, .whileDo hloop, hs => hloop.eval hs hs
  | _, _, _, _, _, .ret hvalue, hs => bind_of_eq (hvalue.eval hs) _
  | _, _, _, _, _, .assign hvalue, hs => bind_of_eq (hvalue.eval hs) _
  | _, _, _, _, _, .native hnative, _ => by
      simp only [stmt, callStmt, hnative, if_true]
      split <;> rfl
  | _, _, _, _, _, .call huser hcall, hs => by
      simp only [stmt, callStmt, huser, Bool.false_eq_true, if_false]
      exact hcall.eval hs _
  | _, _, _, _, _, .async, _ => rfl
  | _, _, _, _, _, .await, _ => rfl

theorem LoopCosts.eval : forall {depth limit : Nat} {cond : Expr} {body : List Stmt}
    {s : ConstState} {n : Nat} {r : Option (ConstFlow × ConstState)},
    LoopCosts p cond body s n r -> s.budget ≤ depth -> s.budget ≤ limit ->
    loopWithin (condition p (invokeWithin p depth) cond)
      (stmts p depth (invokeWithin p depth) body) limit s = r
  | _, _, _, _, _, _, _, .unknown hcond hstop, hs, _ =>
      loopWithin_of_unknown (condition_of_eq (hcond.eval hs) hstop)
  | _, _, _, _, _, _, _, .done hcond hfalse, hs, _ =>
      loopWithin_of_false (condition_of_eq (hcond.eval hs) hfalse)
  | _, _, _, _, _, _, _, .stopped hcond htrue hspend, hs, hlimit => by
      have hle := (hcond.pays.holds htrue).le
      apply (loopWithin_of_true (condition_of_eq (hcond.eval hs) htrue)
        (Nat.le_trans hle hlimit)).trans
      exact bind_of_eq hspend _
  | _, _, _, _, _, _, _, .last hcond htrue hspend hbody hlast, hs, hlimit => by
      have hle := (hcond.pays.holds htrue).le
      apply (loopWithin_of_true (condition_of_eq (hcond.eval hs) htrue)
        (Nat.le_trans hle hlimit)).trans
      apply (bind_of_eq hspend _).trans
      have hround := Nat.le_trans (pays_spend hspend).le (Nat.le_trans hle hs)
      apply (bind_of_eq (hbody.eval hround) _).trans
      exact after_last hlast fun _ => rfl
  | _, _, _, _, _, _, _, .round hcond htrue hspend hbody hagain, hs, hlimit => by
      have hle := (hcond.pays.holds htrue).le
      apply (loopWithin_of_true (condition_of_eq (hcond.eval hs) htrue)
        (Nat.le_trans hle hlimit)).trans
      apply (bind_of_eq hspend _).trans
      have hround := Nat.le_trans (pays_spend hspend).le (Nat.le_trans hle hs)
      apply (bind_of_eq (hbody.eval hround) _).trans
      exact hagain.eval (Nat.le_trans hbody.pays.le hround)
        (Nat.le_trans hbody.pays.le (le_of_spend hspend (Nat.le_trans hle hlimit)))

theorem Stmt.ListCosts.eval : forall {depth : Nat} {body : List Stmt} {s : ConstState} {n : Nat}
    {r : Option (ConstFlow × ConstState)}, Stmt.ListCosts p body s n r -> s.budget ≤ depth ->
    stmts p depth (invokeWithin p depth) body s = r
  | _, _, _, _, _, .nil, _ => rfl
  | _, _, _, _, _, .last hst hlast, hs =>
      (bind_of_eq (hst.eval hs) _).trans (after_last hlast fun _ => rfl)
  | _, _, _, _, _, .next hst hrest, hs =>
      (bind_of_eq (hst.eval hs) _).trans (hrest.eval (Nat.le_trans hst.pays.le hs))

end
end Rules

end Scriptlet
