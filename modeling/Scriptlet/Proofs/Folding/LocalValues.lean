import Scriptlet.Proofs.Evaluation.Unassigned
import Scriptlet.Proofs.Folding.CompileTimeInvariants
import Scriptlet.Proofs.Folding.Forgetting

/-!
# Known values of locals

A call that is run at compile time teaches the pass values of globals only.  What is known
of a local behind a call was known before the call, and it still is the value of the local
if no function that the call comes by stores into a local of another one.
-/

namespace Scriptlet

/-!
# Globals that are known behind a call
-/

def Valuation.OfGlobals (p : Program) (v : Valuation) : Prop :=
  forall id w, v.get? id = some w -> (p.variableAt id).owner = none

theorem ofGlobals_callGlobals (mode : FoldMode) (p : Program) (known : Valuation) :
    (Fold.callGlobals mode p known).OfGlobals p := by
  intro id w hw
  unfold Fold.callGlobals at hw
  by_cases hmode : mode.constantOnly = true
  · rw [if_pos hmode] at hw
    cases hw
  · rw [if_neg hmode, Valuation.get?_keep] at hw
    split at hw
    · rename_i hglobal
      simpa [Fold.isGlobal] using hglobal
    · cases hw

/-!
# Locals that are known behind a call
-/

structure LearnsGlobals (s s' : FoldState) : Prop where
  program : s'.program = s.program
  known : forall id v, (s.program.variableAt id).owner ≠ none -> s'.known.get? id = some v ->
    s.known.get? id = some v

theorem LearnsGlobals.refl (s : FoldState) : LearnsGlobals s s :=
  ⟨rfl, fun _ _ _ hv => hv⟩

theorem LearnsGlobals.trans {s s' s'' : FoldState} (h : LearnsGlobals s s')
    (h' : LearnsGlobals s' s'') : LearnsGlobals s s'' where
  program := h'.program.trans h.program
  known := by
    intro id v hlocal hv
    exact h.known id v hlocal (h'.known id v (h.program.symm ▸ hlocal) hv)

theorem Forgets.learnsGlobals {s s' : FoldState} (h : Forgets s s') : LearnsGlobals s s' :=
  ⟨h.program, fun id v _ hv => h.known id v hv⟩

theorem Counted.learnsGlobals {s s' : FoldState} (h : Counted s s') : LearnsGlobals s s' :=
  h.forgets.learnsGlobals

namespace Fold

variable {mode : FoldMode}

theorem learns_runCall (pos : Pos) (f : FunId) (values : List Value) (elidable impure : Bool)
    (s : FoldState) :
    Yields (runCall mode pos f values elidable impure) s fun _ s' => LearnsGlobals s s' := by
  apply Ensures.get_bind
  apply (yields_checkArguments s.program (s.program.function f) pos s
    (s.program.function f).params values).bind
  intro _ s₁ hchecked
  rw [hchecked.1]
  cases hcall : evalCall s.program mode.quota (callGlobals mode s.program s.known) f values with
  | none =>
      apply (forgets_forgetGlobalsIf impure s).bind
      intro _ s₂ hforgets
      exact hforgets.learnsGlobals
  | some answer =>
      cases impure with
      | false => exact LearnsGlobals.refl s
      | true =>
          refine ⟨rfl, ?_⟩
          intro id v hlocal hv
          have hglobals : answer.2.OfGlobals s.program :=
            globals_evalCall (fun _ _ hglobal _ => hglobal)
              (ofGlobals_callGlobals mode s.program s.known) hcall
          have hunknown : answer.2.get? id = none := by
            cases hanswer : answer.2.get? id with
            | none => rfl
            | some w => exact absurd (hglobals id w hanswer) hlocal
          simp only [Valuation.get?, Valuation.override, List.lookup_append] at hv hunknown
          rw [hunknown] at hv
          exact hv

theorem learns_callWith (pos : Pos) (f : FunId) (xs : FoldedArgs) (s : FoldState) :
    Yields (callWith mode pos f xs) s fun _ s' => LearnsGlobals s s' := by
  have hforget : forall impure : Bool,
      Yields (do
        forgetGlobalsIf impure
        return (none : Option FoldedCall)) s fun _ s' => LearnsGlobals s s' := by
    intro impure
    apply (forgets_forgetGlobalsIf impure s).bind
    intro _ s₁ hforgets
    exact hforgets.learnsGlobals
  apply Ensures.get_bind
  apply Ensures.ite
  · intro _
    exact LearnsGlobals.refl s
  · intro _
    cases xs.values with
    | none => exact hforget _
    | some values =>
        apply Ensures.ite
        · intro _
          exact hforget _
        · intro _
          exact learns_runCall pos f values _ _ s

mutual

theorem learns_expr (mode : FoldMode) : forall (e : Expr) (s : FoldState),
    Yields (expr mode e) s fun _ s' => LearnsGlobals s s'
  | .literal _ _, s => LearnsGlobals.refl s
  | .const _ _, s => LearnsGlobals.refl s
  | .var _ _, s => LearnsGlobals.refl s
  | .unary pos op operand, s => by
      apply (learns_expr mode operand s).bind
      intro x s₁ hoperand
      apply (counted_settle x s₁).bind
      intro tree s₂ hcounted
      have hsettled := hoperand.trans hcounted.learnsGlobals
      cases x.known with
      | none => exact hsettled
      | some k =>
          apply (yields_operator pos k.elidable _ s₂).bind
          intro known s₃ hop
          rw [hop.1]
          exact hsettled
  | .binary pos op left right, s => by
      apply (learns_expr mode left s).bind
      intro l s₁ hleft
      apply (counted_settle l s₁).bind
      intro lTree s₂ hcounted
      have hsettled := hleft.trans hcounted.learnsGlobals
      cases l.known with
      | none => exact hsettled
      | some lk =>
          apply (learns_expr mode right s₂).bind
          intro r s₃ hright
          apply (counted_settle r s₃).bind
          intro rTree s₄ hcounted'
          have hboth := hsettled.trans (hright.trans hcounted'.learnsGlobals)
          cases r.known with
          | none => exact hboth
          | some rk =>
              apply (yields_operator pos _ _ s₄).bind
              intro known s₅ hop
              rw [hop.1]
              exact hboth
  | .call pos f args, s => by
      apply (learns_arguments mode args s).bind
      intro xs s₁ hargs
      apply (learns_callWith pos f xs s₁).bind
      intro call s₂ hcall
      exact hargs.trans hcall

theorem learns_arguments (mode : FoldMode) : forall (args : List Expr) (s : FoldState),
    Yields (arguments mode args) s fun _ s' => LearnsGlobals s s'
  | [], s => LearnsGlobals.refl s
  | arg :: rest, s => by
      apply (learns_expr mode arg s).bind
      intro x s₁ harg
      apply (forgets_settleSlot x s₁).bind
      intro y s₂ hy
      have hsettled := hy.2.learnsGlobals
      apply Ensures.ite
      · intro _
        exact harg.trans hsettled
      · intro _
        apply (learns_arguments mode rest s₂).bind
        intro xs s₃ hrest
        exact (harg.trans hsettled).trans hrest

end

theorem learns_slot (e : Expr) (s : FoldState) :
    Yields (slot mode e) s fun _ s' => LearnsGlobals s s' := by
  apply (learns_expr mode e s).bind
  intro x s₁ hx
  apply (forgets_settleSlot x s₁).mono
  intro _ s' hy
  exact hx.trans hy.2.learnsGlobals

theorem learns_callStmt (pos : Pos) (f : FunId) (args : List Expr) (s : FoldState) :
    Yields (callStmt mode pos f args) s fun _ s' => LearnsGlobals s s' := by
  apply (learns_arguments mode args s).bind
  intro xs s₁ hargs
  apply (learns_callWith pos f xs s₁).bind
  intro call s₂ hcall
  have hboth := hargs.trans hcall
  cases call with
  | none =>
      apply Ensures.ite
      · intro _
        exact hboth
      · intro _
        exact hboth
  | some c =>
      apply Ensures.ite
      · intro _
        exact hboth.trans ⟨rfl, fun _ _ _ hv => hv⟩
      · intro _
        exact hboth

theorem learns_asyncArguments (args : List Expr) (s : FoldState) :
    Yields (asyncArguments mode args) s fun _ s' => LearnsGlobals s s' := by
  induction args generalizing s with
  | nil => exact LearnsGlobals.refl s
  | cons arg rest ih =>
      apply (learns_slot arg s).bind
      intro x s₁ harg
      apply (ih s₁).bind
      intro trees s₂ hrest
      exact harg.trans hrest

theorem learns_asyncStmt (pos : Pos) (target : VarId) (f : FunId) (args : List Expr)
    (s : FoldState) :
    Yields (asyncStmt mode pos target f args) s fun _ s' => LearnsGlobals s s' := by
  apply forgets_asyncStmt (.refl s) _ (learns_asyncArguments args s)
  intro s₁ s₂ hargs hforgets
  exact hargs.trans hforgets.learnsGlobals

theorem learns_awaitStmt (pos : Pos) (target : VarId) (s : FoldState) :
    Yields (awaitStmt mode pos target) s fun _ s' => LearnsGlobals s s' := by
  apply (forgets_awaitStmt pos target s).mono
  intro _ s' hforgets
  exact hforgets.learnsGlobals

end Fold

/-!
# The run behind a call
-/

def Stmt.IsCall : Stmt -> Prop
  | .call _ _ _ => True
  | .async _ _ _ _ => True
  | .await _ _ => True
  | _ => False

theorem learns_stmt (mode : FoldMode) (enter : FunId -> Fold Unit) {st : Stmt} (hst : st.IsCall)
    (s : FoldState) : Yields (Fold.stmt mode enter st) s fun _ s' => LearnsGlobals s s' := by
  cases st with
  | call pos f args => exact Fold.learns_callStmt pos f args s
  | async pos target f args => exact Fold.learns_asyncStmt pos target f args s
  | await pos target => exact Fold.learns_awaitStmt pos target s
  | _ => cases hst

def Machine.HoldsAt {σ : Type} (p : Program) (known : Valuation) (id : VarId) (m : Machine σ) :
    Prop :=
  forall v, known.get? id = some v -> m.read p id = some v

section Run

variable {σ : Type} {l : Loaded σ} (hwell : l.program.WellFormed) {id : VarId}
  (hlocal : (l.program.variableAt id).owner ≠ none) {s s' : FoldState}
  (hvars : s.program.vars = l.program.vars) {m m' : Machine σ}

include hlocal hvars

theorem LearnsGlobals.holdsAt (h : LearnsGlobals s s') (hm : m.HoldsAt l.program s.known id)
    (hread : m'.read l.program id = m.read l.program id) :
    m'.HoldsAt l.program s'.known id := by
  intro v hv
  have hsame : s.program.variableAt id = l.program.variableAt id := by
    rw [Program.variableAt, hvars, ← Program.variableAt]
  rw [hread]
  exact hm v (h.known id v (hsame ▸ hlocal) hv)

include hwell

/-- What is known of a local behind a call, an async or an await is its value in the run, if
no function that is called stores into the local of another one. -/
theorem holdsAt_stmt {mode : FoldMode} {enter : FunId -> Fold Unit} {st : Stmt} (hst : st.IsCall)
    (hspares : Admitted (Mention.Spares l.program id False) st.mentions) {r : FoldedStmt}
    (hfold : Fold.stmt mode enter st s = .ok (r, s')) (hm : m.HoldsAt l.program s.known id)
    {fuel : Nat} {flow : Flow}
    (hrun : Eval.stmt l.program fuel (l.invoke fuel) st m = .done flow m') :
    m'.HoldsAt l.program s'.known id := by
  have hlearns := (learns_stmt mode enter hst s).of_ok hfold
  have hid := Program.lt_of_local hlocal
  have hkeeps := keeps_stmt (invariant_read hwell hid fuel (m.read l.program id)) fuel st hspares
  exact hlearns.holdsAt hlocal hvars hm (hkeeps.of_done rfl hrun).2

theorem holdsAt_slot {mode : FoldMode} {e : Expr}
    (hspares : Admitted (Mention.Spares l.program id False) e.mentions) {x : FoldedExpr}
    (hfold : Fold.slot mode e s = .ok (x, s')) (hm : m.HoldsAt l.program s.known id)
    {fuel : Nat} {v : Value} (hrun : Eval.expr l.program (l.invoke fuel) e m = .done v m') :
    m'.HoldsAt l.program s'.known id := by
  have hlearns := (Fold.learns_slot e s).of_ok hfold
  have hid := Program.lt_of_local hlocal
  have hkeeps := keeps_expr (invariant_read hwell hid fuel (m.read l.program id)) e hspares
  exact hlearns.holdsAt hlocal hvars hm (hkeeps.of_done rfl hrun).2

end Run
end Scriptlet
