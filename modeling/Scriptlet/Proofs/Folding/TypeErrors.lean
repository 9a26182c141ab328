import Scriptlet.Proofs.Evaluation.Completion
import Scriptlet.Proofs.Folding.RaisedErrors

/-!
# Errors of the pass are type errors

The node at which the pass raises an error is never brought to its end in a run.  What the
pass knows may be wrong in value, but the types decide about the check in the pass, and
about the one of the run as well.
-/

namespace Scriptlet

/-!
# Checks of a node
-/

/-- The types that fit at the check of the node itself, which stands in the body of the
function or else at the outermost level. -/
def FoldTask.Checks (p : Program) (owner : Option FunId) : FoldTask -> Prop
  | .expr e => exists t, e.type? p = some t
  | .stmt (.ret _ value) =>
      forall f, owner = some f -> value.type? p = some (p.function f).result
  | .stmt s => s.Checks p
  | .stmts _ => True
  | .arguments _ => True

/-- In a session the node is brought to its end.  A return is when a call of the function
around it ends well by it. -/
inductive Loaded.Completes {σ : Type} (l : Loaded σ) (host : σ) (owner : Option FunId) :
    FoldTask -> Prop where
  | expr {e} : l.Evaluates host e -> Completes l host owner (.expr e)
  | stmt {s} : (forall pos value, s ≠ .ret pos value) -> l.Executes host s ->
      Completes l host owner (.stmt s)
  | ret {f pos value} : owner = some f -> l.EndsBehind host f (.ret pos value) ->
      Completes l host owner (.stmt (.ret pos value))

theorem FoldPoint.Raises.not_checks {p : Program} {point : FoldPoint} {err : FoldError}
    (h : point.Raises err) (hpoint : point.Faithful p) :
    ¬point.task.Checks p point.mode.folding.head? := by
  have hs := hpoint.typed
  cases h with
  | @unary mode depth pos op operand s x s₁ tree s₂ k err hoperand hsettle hknown herr =>
      have hx := Fold.exprTyped_of_ok hs hoperand
      have hnone := (Fold.checks_operator pos k.elidable (op.followsType_apply k.value) s₂).of_error
        herr
      intro hchecks
      rcases hchecks with ⟨t, ht⟩
      rw [Expr.type?, hx.type k hknown] at ht
      cases hnone.symm.trans ht
  | @binary mode depth pos op left right s l s₁ lTree s₂ r s₃ rTree s₄ lk rk err hleft hsettle
      hlk hright hsettle' hrk herr =>
      have hl := Fold.exprTyped_of_ok hs hleft
      have hcounted := counted_of_settle hsettle
      have hr := Fold.exprTyped_of_ok (hl.state.forget hcounted.forgets) hright
      have hnone := (Fold.checks_operator pos (lk.elidable && rk.elidable)
        (op.followsType_apply lk.value rk.value) s₄).of_error herr
      intro hchecks
      rcases hchecks with ⟨t, ht⟩
      rw [Expr.type?, hl.type lk hlk, hr.type rk hrk] at ht
      cases hnone.symm.trans ht
  | @call mode depth pos f args s xs s₁ err hargs herr =>
      have hxs := Fold.argsTyped_of_ok hs hargs
      have hrefused := (Fold.checks_callWith mode hxs.state pos f hxs.types).of_error herr
      intro hchecks
      rcases hchecks with ⟨t, ht⟩
      rw [Expr.type?, hrefused] at ht
      cases ht
  | @callStmt mode depth pos f args s xs s₁ err hargs herr =>
      have hxs := Fold.argsTyped_of_ok hs hargs
      have hrefused := (Fold.checks_callWith mode hxs.state pos f hxs.types).of_error herr
      intro hchecks
      cases hrefused.symm.trans hchecks
  | @varDecl mode depth pos id init s x s₁ err hinit herr =>
      have hx := Fold.slotTyped_of_ok hs hinit
      exact (Fold.checks_assign hx.state id hx.type).of_error herr
  | @assign mode depth pos id value s x s₁ err hvalue herr =>
      have hx := Fold.slotTyped_of_ok hs hvalue
      exact (Fold.checks_assign hx.state id hx.type).of_error herr
  | @ret mode depth pos value s x s₁ err hvalue herr =>
      have hx := Fold.slotTyped_of_ok hs hvalue
      rcases (Fold.checks_checkReturn mode hx.state hx.type).of_error herr with ⟨f, hf, hother⟩
      intro hchecks
      exact hother (hchecks f hf)
  | @ifThen mode depth pos cond head body s c s₁ k hcond hknown hother =>
      have hc := Fold.slotTyped_of_ok hs hcond
      intro hchecks
      exact hother (Option.some.inj ((hc.type k hknown).symm.trans hchecks))
  | @whileDo mode depth pos cond head body s c s₁ k hcond hknown hother =>
      have hc := Fold.slotTyped_of_ok hs hcond
      intro hchecks
      exact hother (Option.some.inj ((hc.type k hknown).symm.trans hchecks))

theorem FoldTask.StandsIn.fit {p : Program} {owner : Option FunId} {task : FoldTask}
    (h : task.StandsIn p owner) (hwell : p.WellFormed) : p.Fit task.mentions := by
  have htext : p.Fit (Stmt.listMentions (p.textOf owner)) := by
    cases owner with
    | none => exact hwell.root.fit
    | some f =>
        simp only [Program.textOf, Program.bodyOf]
        cases hblock : (p.function f).body with
        | none => exact admitted_nil
        | some block => exact (hwell.body hblock).2
  intro m hm
  exact htext m (h.sublist.subset hm)

theorem Loaded.Completes.checks {σ : Type} {l : Loaded σ} (hwell : l.program.WellFormed)
    {host : σ} {owner : Option FunId} {task : FoldTask}
    (hstands : task.StandsIn l.program owner) (h : l.Completes host owner task) :
    task.Checks l.program owner := by
  have hfit := hstands.fit hwell
  cases h with
  | expr hevaluates => exact hevaluates.type hwell hfit
  | @stmt s hother hexecutes =>
      have hchecks := hexecutes.checks hwell hfit
      cases s with
      | ret pos value => exact absurd rfl (hother pos value)
      | _ => exact hchecks
  | @ret f pos value howner hends =>
      intro g hg
      cases howner.symm.trans hg
      exact hends.type hwell

/-!
# Rejected programs
-/

section Half

def halfTokens : List Token :=
  [(.funWord, "fun"), (.name, "half"), (.openParen, "("), (.closeParen, ")"), (.colon, ":"),
    (.intType, "int"), (.openBrace, "\x7b"), (.returnWord, "return"), (.boolLit, "true"),
    (.closeBrace, "\x7d"), (.name, "half"), (.openParen, "("), (.closeParen, ")")].map
    fun word => { pos := .endOfInput, kind := word.1, text := word.2 }

def halfReturn : Stmt :=
  .ret .endOfInput (.literal .endOfInput (.bool true))

def halfProgram : Program :=
  let half : Function :=
    { name := "half", params := [], result := .int, localCount := 0
      body := some { head := { scope := 1, pos := .endOfInput }, body := [halfReturn] } }
  { root := [.funDecl .endOfInput 0, .call .endOfInput 0 []]
    constants := []
    vars := []
    functions := [half]
    globalCount := 0
    globals := [.function 0] }

theorem parse_halfTokens :
    parse ([] : List (Extern Unit)) halfTokens =
      .ok { program := halfProgram, warnings := [] } := by
  cbv

def halfError : FoldError where
  cause := .typeMismatch { place := .returned "half", expected := .int, found := .bool }
  pos := .endOfInput

theorem optimize_halfProgram (quota : Nat) :
    halfProgram.optimize quota = .error halfError := by
  rfl

theorem raises_halfReturn (quota : Nat) :
    exists point, (FoldPoint.start quota halfProgram).Reaches point ∧ point.Raises halfError ∧
      point.mode.folding.head? = some 0 ∧ point.task = .stmt halfReturn := by
  have hdeclared : (FoldPoint.start quota halfProgram).Reaches _ := .single .first
  have hbody := (hdeclared.tail .body).tail .first
  exact ⟨_, hbody, .ret rfl rfl, rfl, rfl⟩

end Half
end Scriptlet
