import Scriptlet.Proofs.Folding.KnownValues

/-!
# Forgetting

Where the pass cannot tell what a variable is, it forgets the variable.  Forgetting learns
nothing, whether it concerns one variable, all globals, or what a loop assigns.
-/

namespace Scriptlet

/-- The tables are the same, and whatever is known was known before. -/
structure Forgets (s s' : FoldState) : Prop where
  program : s'.program = s.program
  known : forall id v, s'.known.get? id = some v -> s.known.get? id = some v

theorem Forgets.refl (s : FoldState) : Forgets s s :=
  ⟨rfl, fun _ _ hv => hv⟩

theorem Forgets.trans {s s' s'' : FoldState} (h : Forgets s s') (h' : Forgets s' s'') :
    Forgets s s'' :=
  ⟨h'.program.trans h.program, fun id v hv => h.known id v (h'.known id v hv)⟩

theorem Counted.forgets {s s' : FoldState} (h : Counted s s') : Forgets s s' :=
  ⟨h.program, fun _ _ hv => h.known ▸ hv⟩

theorem forgets_keep (s : FoldState) (test : VarId -> Bool) :
    Forgets s { s with known := s.known.keep test } := by
  refine ⟨rfl, ?_⟩
  intro id v hv
  simp only [Valuation.get?_keep] at hv
  split at hv
  · exact hv
  · cases hv

namespace Fold

section Forgetting

variable {fault : FoldError -> Prop} {mode : FoldMode}

theorem forgets_forget (id : VarId) (s : FoldState) :
    Ensures fault (forget id) s fun _ s' => Forgets s s' :=
  forgets_keep s (· != id)

theorem forgets_forgetGlobals (s : FoldState) :
    Ensures fault forgetGlobals s fun _ s' => Forgets s s' :=
  forgets_keep s _

theorem forgets_forgetGlobalsIf (impure : Bool) (s : FoldState) :
    Ensures fault (forgetGlobalsIf impure) s fun _ s' => Forgets s s' := by
  cases impure with
  | true => exact forgets_forgetGlobals s
  | false => exact Forgets.refl s

theorem forgets_forgetAssigned (a : Assigned) (s : FoldState) :
    Ensures fault (forgetAssigned a) s fun _ s' => Forgets s s' := by
  unfold forgetAssigned
  cases a.globals with
  | true =>
      have hglobals : Forgets s { s with known := forgetGlobalsIn s.program s.known } :=
        forgets_keep s _
      exact hglobals.trans (forgets_keep _ _)
  | false => exact forgets_keep s _

theorem forgets_settleSlot (x : FoldedExpr) (s : FoldState) :
    Ensures fault (settleSlot mode x) s fun y s' => y.known = x.known ∧ Forgets s s' := by
  unfold settleSlot
  cases hknown : x.known with
  | some k =>
      apply (counted_replace k x.tree s).bind
      intro tree s₁ hcounted
      exact ⟨rfl, hcounted.forgets⟩
  | none =>
      apply Ensures.ite
      · intro _
        apply (forgets_forgetGlobals s).bind
        intro _ s₁ hforgets
        exact ⟨hknown, hforgets⟩
      · intro _
        exact ⟨hknown, .refl s⟩

theorem forgets_asyncStmt {keeps : FoldState -> Prop} {s : FoldState} (hs : keeps s)
    (hforget : forall s₁ s₂, keeps s₁ -> Forgets s₁ s₂ -> keeps s₂) {args : List Expr}
    (hargs : Ensures fault (asyncArguments mode args) s fun _ s' => keeps s') {pos : Pos}
    {target : VarId} {f : FunId} :
    Ensures fault (asyncStmt mode pos target f args) s fun _ s' => keeps s' := by
  apply Ensures.ite
  · intro _
    exact hs
  · intro _
    apply hargs.bind
    intro trees s₁ hkept
    apply (forgets_forget target s₁).bind
    intro _ s₂ hforgotten
    apply Ensures.get_bind
    apply Ensures.ite
    · intro _
      apply (forgets_forgetGlobals s₂).bind
      intro _ s₃ hglobals
      exact hforget s₁ s₃ hkept (hforgotten.trans hglobals)
    · intro _
      exact hforget s₁ s₂ hkept hforgotten

theorem forgets_awaitStmt (pos : Pos) (target : VarId) (s : FoldState) :
    Ensures fault (awaitStmt mode pos target) s fun _ s' => Forgets s s' := by
  apply Ensures.ite
  · intro _
    exact Forgets.refl s
  · intro _
    apply (forgets_forget target s).bind
    intro _ s₁ hforgotten
    apply (forgets_forgetGlobals s₁).bind
    intro _ s₂ hglobals
    exact hforgotten.trans hglobals

theorem forgets_endLoop (before s : FoldState) (pos : Pos) (cond : Expr) (head : BlockHead)
    (body : List Stmt) (result : FoldedLoop) :
    Ensures fault (endLoop mode before pos cond head body result) s fun _ s' =>
      Forgets { s with known := before.known } s' := by
  have hfinish : forall (newCond : Expr) (newBody : List Stmt) (t : FoldState),
      Forgets { s with known := before.known } t ->
      Ensures fault (do
        forgetAssigned (Assigned.byStmts newBody)
        if newCond.hasCall then
          forgetGlobals
        return FoldedStmt.keep (.whileDo pos newCond head newBody)) t fun _ s' =>
        Forgets { s with known := before.known } s' := by
    intro newCond newBody t ht
    apply (forgets_forgetAssigned _ t).bind
    intro _ s₁ hassigned
    apply Ensures.ite
    · intro _
      apply (forgets_forgetGlobals s₁).bind
      intro _ s₂ hglobals
      exact ht.trans (hassigned.trans hglobals)
    · intro _
      exact ht.trans hassigned
  apply Ensures.modify_bind
  cases result with
  | folded newCond newBody => exact hfinish newCond newBody _ (.refl _)
  | neverEntered =>
      apply Ensures.modify_bind
      exact hfinish cond body _ ⟨rfl, fun _ _ hv => hv⟩
  | gaveUp =>
      apply Ensures.ite
      · intro _
        exact Forgets.refl _
      · intro _
        apply Ensures.modify_bind
        exact hfinish cond body _ ⟨rfl, fun _ _ hv => hv⟩

end Forgetting
end Fold
end Scriptlet
