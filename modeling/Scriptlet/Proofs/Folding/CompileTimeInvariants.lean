import Scriptlet.Proofs.Folding.PureCalls

/-!
# Invariants of calls at compile time

A property of the state at compile time that is kept by storing into a variable, by
spending from the budget and by opening and closing frames is kept by every call.
-/

namespace Scriptlet

section Const

variable {α β : Type} {p : Program} {inv : ConstState -> Prop}

def ConstKeeps (inv : ConstState -> Prop) (x : ConstEval α) : Prop :=
  forall c a c', inv c -> x c = some (a, c') -> inv c'

theorem constKeeps_pure (a : α) : ConstKeeps inv (pure a) := by
  intro c _ c' hc heval
  cases heval
  exact hc

theorem constKeeps_giveUp : ConstKeeps inv (ConstEval.giveUp : ConstEval α) := by
  intro c a c' _ heval
  cases heval

theorem constKeeps_ofOption (x : Option α) : ConstKeeps inv (ConstEval.ofOption x) := by
  cases x with
  | some a => exact constKeeps_pure a
  | none => exact constKeeps_giveUp

theorem ConstKeeps.bind {x : ConstEval α} {f : α -> ConstEval β} (hx : ConstKeeps inv x)
    (hf : forall a, ConstKeeps inv (f a)) : ConstKeeps inv (x >>= f) := by
  intro c b c' hc heval
  rcases ConstEval.bind_eq_some.mp heval with ⟨a, c₁, hfirst, heval⟩
  exact hf a c₁ b c' (hx c a c₁ hc hfirst) heval

theorem constKeeps_readVar (id : VarId) : ConstKeeps inv (ConstEval.readVar p id) := by
  intro c v c' hc heval
  rcases Option.map_eq_some_iff.mp heval with ⟨w, _, hpair⟩
  cases hpair
  exact hc

/-- What a run at compile time does to its state, step by step, keeps the property. -/
structure ConstInvariant (p : Program) (inv : ConstState -> Prop) : Prop where
  writes : forall id v, ConstKeeps inv (ConstEval.writeVar p id v)
  spends : ConstKeeps inv ConstEval.spend
  frames : forall c frames, inv c -> inv { c with frames := frames }

abbrev ConstCallsKeep (inv : ConstState -> Prop) (invoke : ConstEval.Invoke) : Prop :=
  forall f values, ConstKeeps inv (invoke f values)

variable {invoke : ConstEval.Invoke}

/-!
# Expressions
-/

mutual

theorem constKeeps_expr (hinvoke : ConstCallsKeep inv invoke) : forall e : Expr,
    ConstKeeps inv (ConstEval.expr p invoke e)
  | .literal _ value => constKeeps_pure value
  | .const _ id => constKeeps_pure _
  | .var _ id => constKeeps_readVar id
  | .unary _ op operand => (constKeeps_expr hinvoke operand).bind fun _ => constKeeps_ofOption _
  | .binary _ op left right => by
      apply (constKeeps_expr hinvoke left).bind
      intro l
      apply (constKeeps_expr hinvoke right).bind
      intro r
      exact constKeeps_ofOption _
  | .call _ f args => by
      rw [ConstEval.expr]
      split
      · exact constKeeps_giveUp
      · apply (constKeeps_arguments hinvoke (p.function f).params args).bind
        intro values
        apply (hinvoke f values).bind
        intro result
        exact constKeeps_ofOption result

theorem constKeeps_arguments (hinvoke : ConstCallsKeep inv invoke) :
    forall (params : List Param) (args : List Expr),
      ConstKeeps inv (ConstEval.arguments p invoke params args)
  | param :: params, arg :: args => by
      apply (constKeeps_expr hinvoke arg).bind
      intro value
      split
      · apply (constKeeps_arguments hinvoke params args).bind
        intro values
        exact constKeeps_pure _
      · exact constKeeps_giveUp
  | [], [] => constKeeps_pure []
  | [], _ :: _ => constKeeps_pure []
  | _ :: _, [] => constKeeps_pure []

end

theorem constKeeps_condition (hinvoke : ConstCallsKeep inv invoke) (cond : Expr) :
    ConstKeeps inv (ConstEval.condition p invoke cond) :=
  (constKeeps_expr hinvoke cond).bind fun _ => constKeeps_ofOption _

/-!
# Statements
-/

theorem constKeeps_callStmt (hinvoke : ConstCallsKeep inv invoke) (f : FunId) (args : List Expr) :
    ConstKeeps inv (ConstEval.callStmt p invoke f args) := by
  simp only [ConstEval.callStmt]
  split
  · split
    · exact constKeeps_pure _
    · exact constKeeps_giveUp
  · apply (constKeeps_arguments hinvoke _ args).bind
    intro values
    apply (hinvoke f values).bind
    intro _
    exact constKeeps_pure _

theorem constKeeps_loopWithin (h : ConstInvariant p inv) {cond : ConstEval Bool}
    {body : ConstEval ConstFlow} (hcond : ConstKeeps inv cond) (hbody : ConstKeeps inv body)
    (limit : Nat) : ConstKeeps inv (ConstEval.loopWithin cond body limit) := by
  induction limit with
  | zero =>
      apply hcond.bind
      intro b
      cases b with
      | true => exact constKeeps_giveUp
      | false => exact constKeeps_pure _
  | succ limit ih =>
      apply hcond.bind
      intro b
      cases b with
      | true =>
          apply h.spends.bind
          intro _
          apply hbody.bind
          intro flow
          cases flow with
          | next => exact ih
          | returned value => exact constKeeps_pure _
      | false => exact constKeeps_pure _

mutual

theorem constKeeps_stmt (h : ConstInvariant p inv) (hinvoke : ConstCallsKeep inv invoke)
    (limit : Nat) : forall s : Stmt,
    ConstKeeps inv (ConstEval.stmt p limit invoke s)
  | .constDecl _ _ => constKeeps_pure _
  | .funDecl _ _ => constKeeps_pure _
  | .varDecl _ _ none => constKeeps_pure _
  | .varDecl _ id (some init) => by
      apply (constKeeps_expr hinvoke init).bind
      intro v
      exact (h.writes id v).bind fun _ => constKeeps_pure _
  | .block _ body => constKeeps_stmts h hinvoke limit body
  | .ifThen _ cond _ body => by
      apply (constKeeps_condition hinvoke cond).bind
      intro b
      cases b with
      | true => exact constKeeps_stmts h hinvoke limit body
      | false => exact constKeeps_pure _
  | .whileDo _ cond _ body =>
      constKeeps_loopWithin h (constKeeps_condition hinvoke cond)
        (constKeeps_stmts h hinvoke limit body) limit
  | .ret _ value => (constKeeps_expr hinvoke value).bind fun _ => constKeeps_pure _
  | .assign _ target value => by
      apply (constKeeps_expr hinvoke value).bind
      intro v
      exact (h.writes target v).bind fun _ => constKeeps_pure _
  | .call _ f args => constKeeps_callStmt hinvoke f args
  | .async _ _ _ _ => constKeeps_giveUp
  | .await _ _ => constKeeps_giveUp

theorem constKeeps_stmts (h : ConstInvariant p inv) (hinvoke : ConstCallsKeep inv invoke)
    (limit : Nat) : forall body : List Stmt,
    ConstKeeps inv (ConstEval.stmts p limit invoke body)
  | [] => constKeeps_pure _
  | s :: rest => by
      apply (constKeeps_stmt h hinvoke limit s).bind
      intro flow
      cases flow with
      | next => exact constKeeps_stmts h hinvoke limit rest
      | returned value => exact constKeeps_pure _

end

/-!
# Calls
-/

theorem constKeeps_inFrame (h : ConstInvariant p inv) (frame : ConstFrame) {x : ConstEval α}
    (hx : ConstKeeps inv x) : ConstKeeps inv (ConstEval.inFrame frame x) := by
  intro c a c' hc heval
  rcases ConstEval.bind_eq_some.mp heval with ⟨⟨⟩, c₁, hpush, heval⟩
  cases hpush
  rcases ConstEval.bind_eq_some.mp heval with ⟨b, c₂, hbody, hpop⟩
  cases hpop
  exact h.frames c₂ _ (hx _ a c₂ (h.frames c _ hc) hbody)

theorem constCallsKeep_invoke (h : ConstInvariant p inv) (depth : Nat) :
    ConstCallsKeep inv (ConstEval.invokeWithin p depth) := by
  induction depth with
  | zero => exact fun _ _ => constKeeps_giveUp
  | succ depth ih =>
      intro f values
      rw [ConstEval.invokeWithin]
      apply h.spends.bind
      intro _
      cases hblock : (p.function f).body with
      | none =>
          simp only [hblock]
          exact constKeeps_giveUp
      | some block =>
          simp only [hblock]
          apply (constKeeps_inFrame h _ (constKeeps_stmts h ih depth block.body)).bind
          intro flow
          exact constKeeps_ofOption _

end Const

/-!
# Globals behind a call
-/

section Globals

variable {p : Program} {quota : Nat} {globals globals' : Valuation} {f : FunId}
  {values : List Value} {value : Option Value}

theorem constInvariant_globals {good : Valuation -> Prop}
    (hset : forall globals id v, (p.variableAt id).owner = none ->
      (p.variableAt id).type = v.type -> good globals -> good (globals.set id v)) :
    ConstInvariant p fun c => good c.globals where
  writes := by
    intro id v c _ c' hc heval
    unfold ConstEval.writeVar at heval
    by_cases htype : (p.variableAt id).type = v.type
    · rw [if_pos htype] at heval
      cases howner : (p.variableAt id).owner with
      | none =>
          rw [howner] at heval
          cases heval
          exact hset c.globals id v howner htype hc
      | some f =>
          rw [howner] at heval
          rcases Option.map_eq_some_iff.mp heval with ⟨frames, _, hpair⟩
          cases hpair
          exact hc
    · rw [if_neg htype] at heval
      cases heval
  spends := by
    intro c _ c' hc heval
    unfold ConstEval.spend at heval
    split at heval
    · cases heval
    · cases heval
      exact hc
  frames := fun _ _ hc => hc

theorem keeps_evalCall (good : Valuation -> Prop)
    (hset : forall globals id v, (p.variableAt id).owner = none ->
      (p.variableAt id).type = v.type -> good globals -> good (globals.set id v))
    (h : good globals) (hcall : evalCall p quota globals f values = some (value, globals')) :
    good globals' := by
  rcases Option.map_eq_some_iff.mp hcall with ⟨⟨_, c⟩, hinvoke, hpair⟩
  cases hpair
  exact constCallsKeep_invoke (constInvariant_globals hset) quota f values _ _ c h hinvoke

theorem globals_evalCall {good : VarId -> Value -> Prop}
    (hgood : forall id v, (p.variableAt id).owner = none -> (p.variableAt id).type = v.type ->
      good id v)
    (h : forall id v, globals.get? id = some v -> good id v)
    (hcall : evalCall p quota globals f values = some (value, globals')) :
    forall id v, globals'.get? id = some v -> good id v := by
  refine keeps_evalCall (fun g => forall id v, g.get? id = some v -> good id v) ?_ h hcall
  intro g id v howner htype hg other w hw
  rw [Valuation.get?_set] at hw
  split at hw
  · rename_i hsame
    cases hw
    exact hsame ▸ hgood id v howner htype
  · exact hg other w hw

theorem isSome_evalCall (hcall : evalCall p quota globals f values = some (value, globals'))
    {id : VarId} (hid : (globals.get? id).isSome = true) : (globals'.get? id).isSome = true := by
  refine keeps_evalCall (fun g => (g.get? id).isSome = true) ?_ hid hcall
  intro g other v _ _ hg
  rw [Valuation.get?_set]
  split
  · rfl
  · exact hg

end Globals
end Scriptlet
