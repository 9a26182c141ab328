import Scriptlet.Proofs.Folding.KnownValues

/-!
# Replacements that are counted

Each replacement of an expression by a literal is counted, and each takes away something that
could be replaced.  So the count is bounded by what a tree loses, and a tree for which nothing
was counted is the same as before.
-/

namespace Scriptlet

/-!
# Weights
-/

mutual

def Expr.weight : Expr -> Nat
  | .literal _ _ => 0
  | .const _ _ => 1
  | .var _ _ => 1
  | .unary _ _ operand => operand.weight + 1
  | .binary _ _ left right => left.weight + right.weight + 1
  | .call _ _ args => Expr.listWeight args + 1

def Expr.listWeight : List Expr -> Nat
  | [] => 0
  | e :: rest => e.weight + Expr.listWeight rest

end

theorem Expr.weight_pos {e : Expr} (h : e.literal? = none) : 1 ≤ e.weight := by
  cases e with
  | literal => cases h
  | const => exact Nat.le_refl 1
  | var => exact Nat.le_refl 1
  | unary => exact Nat.le_add_left 1 _
  | binary => exact Nat.le_add_left 1 _
  | call => exact Nat.le_add_left 1 _

namespace FoldStats

def total (stats : FoldStats) : Nat :=
  stats.foldedExprs + stats.elidedCalls + stats.removedBlocks

@[simp] theorem total_addFolded (stats : FoldStats) :
    stats.addFolded.total = stats.total + 1 := by
  simp only [total, addFolded]
  omega

@[simp] theorem total_addElided (stats : FoldStats) :
    stats.addElided.total = stats.total + 1 := by
  simp only [total, addElided]
  omega

@[simp] theorem total_addRemoved (stats : FoldStats) :
    stats.addRemoved.total = stats.total + 1 := by
  simp only [total, addRemoved]
  omega

theorem total_eq_zero {stats : FoldStats} : stats.total = 0 <-> stats = .none := by
  obtain ⟨foldedExprs, elidedCalls, removedBlocks⟩ := stats
  simp only [total, none, FoldStats.mk.injEq]
  omega

end FoldStats

/-!
# Changes that are paid for
-/

/-- While the count went up from `n` to `m`, the tree lost at least as much weight, and it is
the same tree if nothing was counted. -/
structure Paid {α : Type} (weight : α -> Nat) (x x' : α) (n m : Nat) : Prop where
  counted : n ≤ m
  paid : weight x' + m ≤ weight x + n
  same : m = n -> x' = x

namespace Paid

section

variable {α β γ : Type} {weight : α -> Nat} {weight' : β -> Nat} {weight'' : γ -> Nat}
  {x x' x'' : α} {y y' : β} {n m k : Nat}

theorem refl (weight : α -> Nat) (x : α) (n : Nat) : Paid weight x x n n :=
  ⟨Nat.le_refl n, Nat.le_refl _, fun _ => rfl⟩

theorem trans (h : Paid weight x x' n m) (h' : Paid weight x' x'' m k) :
    Paid weight x x'' n k where
  counted := Nat.le_trans h.counted h'.counted
  paid := by
    have hpaid := h.paid
    have hpaid' := h'.paid
    omega
  same := by
    intro heq
    have hcounted := h.counted
    have hcounted' := h'.counted
    rw [h'.same (by omega), h.same (by omega)]

theorem under (h : Paid weight x x' n m) (build : α -> γ) (extra : Nat)
    (hbuild : forall a, weight'' (build a) = weight a + extra) :
    Paid weight'' (build x) (build x') n m where
  counted := h.counted
  paid := by
    rw [hbuild, hbuild]
    have hpaid := h.paid
    omega
  same := fun heq => congrArg build (h.same heq)

theorem both (h : Paid weight x x' n m) (h' : Paid weight' y y' m k) (build : α -> β -> γ)
    (extra : Nat) (hbuild : forall a b, weight'' (build a b) = weight a + weight' b + extra) :
    Paid weight'' (build x y) (build x' y') n k where
  counted := Nat.le_trans h.counted h'.counted
  paid := by
    rw [hbuild, hbuild]
    have hpaid := h.paid
    have hpaid' := h'.paid
    omega
  same := by
    intro heq
    have hcounted := h.counted
    have hcounted' := h'.counted
    rw [h.same (by omega), h'.same (by omega)]

end
end Paid

/-!
# Expressions
-/

abbrev Expr.PaidFor (e tree : Expr) (s s' : FoldState) : Prop :=
  Paid Expr.weight e tree s.stats.total s'.stats.total

abbrev Expr.ListPaidFor (args trees : List Expr) (s s' : FoldState) : Prop :=
  Paid Expr.listWeight args trees s.stats.total s'.stats.total

namespace Fold

theorem paid_replace (k : Known) (e : Expr) (s : FoldState) :
    Yields (replace k e) s fun tree s' => e.PaidFor tree s s' := by
  apply Ensures.ite
  · intro _
    exact .refl _ _ _
  · intro hreplaced
    have hliteral : e.literal? = none := by
      cases hliteral : e.literal? with
      | none => rfl
      | some v => simp [hliteral] at hreplaced
    have hput : forall s' : FoldState, s'.stats.total = s.stats.total + 1 ->
        e.PaidFor (.literal e.pos k.value) s s' := by
      intro s' hs'
      have hweight := Expr.weight_pos hliteral
      refine ⟨by omega, ?_, by omega⟩
      rw [Expr.weight]
      omega
    cases e with
    | call pos f args => exact hput _ (FoldStats.total_addElided s.stats)
    | _ => exact hput _ (FoldStats.total_addFolded s.stats)

theorem paid_settle (x : FoldedExpr) (s : FoldState) :
    Yields (settle x) s fun tree s' => x.tree.PaidFor tree s s' := by
  unfold settle
  cases x.known with
  | none => exact .refl _ _ _
  | some k => exact paid_replace k x.tree s

theorem paid_settleSlot (mode : FoldMode) (x : FoldedExpr) (s : FoldState) :
    Yields (settleSlot mode x) s fun y s' => x.tree.PaidFor y.tree s s' := by
  unfold settleSlot
  cases x.known with
  | none =>
      apply Ensures.ite
      · intro _
        exact .refl _ _ _
      · intro _
        exact .refl _ _ _
  | some k =>
      apply (paid_replace k x.tree s).bind
      intro tree _ htree
      exact htree

theorem stats_callWith (mode : FoldMode) (pos : Pos) (f : FunId) (xs : FoldedArgs)
    (s : FoldState) : Yields (callWith mode pos f xs) s fun _ s' => s'.stats = s.stats := by
  have hforget : forall (impure : Bool) (s : FoldState),
      Yields (do
        forgetGlobalsIf impure
        return (none : Option FoldedCall)) s fun _ s' => s'.stats = s.stats := by
    intro impure s
    cases impure <;> exact rfl
  apply Ensures.get_bind
  apply Ensures.ite
  · intro _
    exact rfl
  · intro _
    cases xs.values with
    | none => exact hforget _ s
    | some values =>
        apply Ensures.ite
        · intro _
          exact hforget _ s
        · intro _
          apply Ensures.get_bind
          apply (yields_checkArguments _ _ pos s _ values).bind
          rintro _ s₁ ⟨rfl, _⟩
          cases evalCall s₁.program mode.quota (callGlobals mode s₁.program s₁.known) f values with
          | none => exact hforget _ s₁
          | some result =>
              apply Ensures.ite
              · intro _
                exact rfl
              · intro _
                exact rfl

theorem stats_assign (id : VarId) (x : FoldedExpr) (s : FoldState) :
    Yields (assign id x) s fun _ s' => s'.stats = s.stats := by
  unfold assign
  cases x.known with
  | none => exact rfl
  | some k =>
      apply Ensures.get_bind
      apply Ensures.ite
      · intro _
        exact rfl
      · intro _
        trivial

theorem stats_checkReturn (mode : FoldMode) (x : FoldedExpr) (s : FoldState) :
    Yields (checkReturn mode x) s fun _ s' => s'.stats = s.stats := by
  unfold checkReturn
  cases x.known with
  | none => exact rfl
  | some k =>
      cases mode.folding with
      | nil => exact rfl
      | cons f rest =>
          apply Ensures.get_bind
          apply Ensures.ite
          · intro _
            trivial
          · intro _
            exact rfl

mutual

theorem paid_expr (mode : FoldMode) : forall (e : Expr) (s : FoldState),
    Yields (expr mode e) s fun x s' => e.PaidFor x.tree s s'
  | .literal _ _, _ => .refl _ _ _
  | .const _ _, _ => .refl _ _ _
  | .var _ _, _ => .refl _ _ _
  | .unary pos op operand, s => by
      apply (paid_expr mode operand s).bind
      intro x s₁ hx
      apply (paid_settle x s₁).bind
      intro tree s₂ htree
      have hunary : Expr.PaidFor (.unary pos op operand) (.unary pos op tree) s s₂ :=
        (hx.trans htree).under (Expr.unary pos op) 1 fun _ => rfl
      cases x.known with
      | none => exact hunary
      | some k =>
          apply (yields_operator pos _ _ s₂).bind
          rintro known _ ⟨rfl, _⟩
          exact hunary
  | .binary pos op left right, s => by
      apply (paid_expr mode left s).bind
      intro l s₁ hl
      apply (paid_settle l s₁).bind
      intro lTree s₂ hlTree
      have hbinary : forall {rTree : Expr} {s₃ : FoldState}, right.PaidFor rTree s₂ s₃ ->
          Expr.PaidFor (.binary pos op left right) (.binary pos op lTree rTree) s s₃ :=
        fun hright => (hl.trans hlTree).both hright (Expr.binary pos op) 1 fun _ _ => rfl
      cases l.known with
      | none => exact hbinary (.refl _ _ _)
      | some lk =>
          apply (paid_expr mode right s₂).bind
          intro r s₃ hr
          apply (paid_settle r s₃).bind
          intro rTree s₄ hrTree
          cases r.known with
          | none => exact hbinary (hr.trans hrTree)
          | some rk =>
              apply (yields_operator pos _ _ s₄).bind
              rintro known _ ⟨rfl, _⟩
              exact hbinary (hr.trans hrTree)
  | .call pos f args, s => by
      apply (paid_arguments mode args s).bind
      intro xs s₁ hxs
      apply (stats_callWith mode pos f xs s₁).bind
      intro call s₂ hstats
      have hcall : Expr.PaidFor (.call pos f args) (.call pos f xs.trees) s s₁ :=
        hxs.under (Expr.call pos f) 1 fun _ => rfl
      show Paid _ _ _ _ s₂.stats.total
      rw [hstats]
      exact hcall

theorem paid_arguments (mode : FoldMode) : forall (args : List Expr) (s : FoldState),
    Yields (arguments mode args) s fun xs s' => Expr.ListPaidFor args xs.trees s s'
  | [], _ => .refl _ _ _
  | arg :: rest, s => by
      apply (paid_expr mode arg s).bind
      intro e s₁ he
      apply (paid_settleSlot mode e s₁).bind
      intro x s₂ hx
      have hcons : forall {trees : List Expr} {s₃ : FoldState},
          Expr.ListPaidFor rest trees s₂ s₃ ->
          Expr.ListPaidFor (arg :: rest) (x.tree :: trees) s s₃ :=
        fun hrest => (he.trans hx).both hrest List.cons 0 fun _ _ => rfl
      apply Ensures.ite
      · intro _
        exact hcons (.refl _ _ _)
      · intro _
        apply (paid_arguments mode rest s₂).bind
        intro xs _ hxs
        exact hcons hxs

end

theorem paid_slot (mode : FoldMode) (e : Expr) (s : FoldState) :
    Yields (slot mode e) s fun x s' => e.PaidFor x.tree s s' := by
  apply (paid_expr mode e s).bind
  intro x s₁ hx
  apply (paid_settleSlot mode x s₁).mono
  intro y s₂ hy
  exact hx.trans hy

theorem paid_asyncArguments (mode : FoldMode) (args : List Expr) : forall s : FoldState,
    Yields (asyncArguments mode args) s fun trees s' => Expr.ListPaidFor args trees s s' := by
  induction args with
  | nil => exact fun _ => .refl _ _ _
  | cons arg rest ih =>
      intro s
      apply (paid_slot mode arg s).bind
      intro x s₁ hx
      apply (ih s₁).bind
      intro trees _ hrest
      exact hx.both hrest List.cons 0 fun _ _ => rfl

end Fold
end Scriptlet
