import Scriptlet.Proofs.Folding.CountedCalls

/-!
# The quota of a call at compile time

A call at compile time ends, also where the call at run time would not: every call and every
round of a loop is paid from one budget, which is never filled up again, and between two
payments there is only text to walk over.  A larger quota changes nothing about a call that
succeeds.
-/

namespace Scriptlet

open ConstEval

/-!
# Everything ends
-/

section Ends

variable {p : Program} {bound : Nat}

abbrev InvokesEnd (p : Program) (bound : Nat) : Prop :=
  forall (f : FunId) (values : List Value) (s : ConstState), s.budget ≤ bound ->
    exists n r, InvokeCosts p f values s n r

theorem call_ends (hinvoke : InvokesEnd p bound) {f : FunId} {args : List Expr} {s : ConstState}
    {n : Nat} {r : Option (List Value × ConstState)} (hs : s.budget ≤ bound)
    (hargs : Expr.ListCosts p (p.function f).params args s n r) :
    exists n r, CallCosts p f args s n r := by
  rcases r with _ | ⟨values, s₁⟩
  · exact ⟨_, _, .arguments hargs⟩
  · rcases hinvoke f values s₁ (Nat.le_trans hargs.pays.le hs) with ⟨m, r, hcall⟩
    exact ⟨_, _, .invoke hargs hcall⟩

mutual

theorem expr_ends (hinvoke : InvokesEnd p bound) : forall (e : Expr) (s : ConstState),
    s.budget ≤ bound -> exists n r, e.Costs p s n r
  | .literal _ _, _, _ => ⟨_, _, .literal⟩
  | .const _ _, _, _ => ⟨_, _, .const⟩
  | .var _ _, _, _ => ⟨_, _, .var⟩
  | .unary _ _ operand, s, hs => by
      rcases expr_ends hinvoke operand s hs with ⟨n, r, hoperand⟩
      exact ⟨_, _, .unary hoperand⟩
  | .binary _ _ left right, s, hs => by
      rcases expr_ends hinvoke left s hs with ⟨n, _ | ⟨l, s₁⟩, hleft⟩
      · exact ⟨_, _, .left hleft⟩
      · rcases expr_ends hinvoke right s₁ (Nat.le_trans hleft.pays.le hs) with ⟨m, r, hright⟩
        exact ⟨_, _, .binary hleft hright⟩
  | .call _ f args, s, hs => by
      cases hnative : (p.function f).isNative with
      | true => exact ⟨_, _, .native hnative⟩
      | false =>
          rcases arguments_end hinvoke (p.function f).params args s hs with ⟨n, r, hargs⟩
          rcases call_ends hinvoke hs hargs with ⟨m, r', hcall⟩
          exact ⟨_, _, .call hnative hcall⟩

theorem arguments_end (hinvoke : InvokesEnd p bound) : forall (params : List Param)
    (args : List Expr) (s : ConstState), s.budget ≤ bound ->
    exists n r, Expr.ListCosts p params args s n r
  | [], _, _, _ => ⟨_, _, .done (.inl rfl)⟩
  | _ :: _, [], _, _ => ⟨_, _, .done (.inr rfl)⟩
  | param :: params, arg :: args, s, hs => by
      rcases expr_ends hinvoke arg s hs with ⟨n, _ | ⟨v, s₁⟩, harg⟩
      · exact ⟨_, _, .first harg⟩
      · cases haccepts : param.type.accepts v.type with
        | false => exact ⟨_, _, .refused harg haccepts⟩
        | true =>
            rcases arguments_end hinvoke params args s₁ (Nat.le_trans harg.pays.le hs) with
              ⟨m, r, hrest⟩
            exact ⟨_, _, .next harg haccepts hrest⟩

end

theorem loop_ends {cond : Expr} {body : List Stmt}
    (hcond : forall s : ConstState, s.budget ≤ bound -> exists n r, cond.Costs p s n r)
    (hbody : forall s : ConstState, s.budget ≤ bound -> exists n r, Stmt.ListCosts p body s n r)
    {s : ConstState} (hs : s.budget ≤ bound) : exists n r, LoopCosts p cond body s n r := by
  -- Each round takes from the budget, so by induction on what is left of it.
  induction hleft : s.budget using Nat.strongRecOn generalizing s with
  | ind left ih =>
      rcases hcond s hs with ⟨n, r, hc⟩
      rcases hr : holds r with _ | ⟨_ | _, s₁⟩
      · exact ⟨_, _, .unknown hc hr⟩
      · exact ⟨_, _, .done hc hr⟩
      · have hle := (hc.pays.holds hr).le
        rcases hspend : spend s₁ with _ | ⟨⟨⟩, s₂⟩
        · exact ⟨_, _, .stopped hc hr hspend⟩
        · have hpaid := (pays_spend hspend).left _ _ rfl
          rcases hbody s₂ (by omega) with ⟨m, r', hround⟩
          by_cases hnext : exists s₃, r' = some (.next, s₃)
          · rcases hnext with ⟨s₃, rfl⟩
            have hle' := hround.pays.le
            rcases ih s₃.budget (by omega) (by omega) rfl with ⟨k, r'', hagain⟩
            exact ⟨_, _, .round hc hr hspend hround hagain⟩
          · exact ⟨_, _, .last hc hr hspend hround fun s₃ h => hnext ⟨s₃, h⟩⟩

mutual

theorem stmt_ends (hinvoke : InvokesEnd p bound) : forall (st : Stmt) (s : ConstState),
    s.budget ≤ bound -> exists n r, st.Costs p s n r
  | .constDecl _ _, _, _ => ⟨_, _, .constDecl⟩
  | .funDecl _ _, _, _ => ⟨_, _, .funDecl⟩
  | .varDecl _ _ none, _, _ => ⟨_, _, .varDecl⟩
  | .varDecl _ _ (some init), s, hs => by
      rcases expr_ends hinvoke init s hs with ⟨n, r, hinit⟩
      exact ⟨_, _, .initialized hinit⟩
  | .assign _ _ value, s, hs => by
      rcases expr_ends hinvoke value s hs with ⟨n, r, hvalue⟩
      exact ⟨_, _, .assign hvalue⟩
  | .ret _ value, s, hs => by
      rcases expr_ends hinvoke value s hs with ⟨n, r, hvalue⟩
      exact ⟨_, _, .ret hvalue⟩
  | .block _ body, s, hs => by
      rcases stmts_end hinvoke body s hs with ⟨n, r, hbody⟩
      exact ⟨_, _, .block hbody⟩
  | .ifThen _ cond _ body, s, hs => by
      rcases expr_ends hinvoke cond s hs with ⟨n, r, hcond⟩
      rcases hr : holds r with _ | ⟨_ | _, s₁⟩
      · exact ⟨_, _, .ifStopped hcond hr⟩
      · exact ⟨_, _, .ifFalse hcond hr⟩
      · have hle := (hcond.pays.holds hr).le
        rcases stmts_end hinvoke body s₁ (Nat.le_trans hle hs) with ⟨m, r', hbody⟩
        exact ⟨_, _, .ifTrue hcond hr hbody⟩
  | .whileDo _ cond _ body, s, hs => by
      rcases loop_ends (expr_ends hinvoke cond) (stmts_end hinvoke body) hs with ⟨n, r, hloop⟩
      exact ⟨_, _, .whileDo hloop⟩
  | .call _ f args, s, hs => by
      cases hnative : (p.function f).isNative with
      | true => exact ⟨_, _, .native hnative⟩
      | false =>
          rcases arguments_end hinvoke (p.function f).params args s hs with ⟨n, r, hargs⟩
          rcases call_ends hinvoke hs hargs with ⟨m, r', hcall⟩
          exact ⟨_, _, .call hnative hcall⟩
  | .async _ _ _ _, _, _ => ⟨_, _, .async⟩
  | .await _ _, _, _ => ⟨_, _, .await⟩

theorem stmts_end (hinvoke : InvokesEnd p bound) : forall (body : List Stmt) (s : ConstState),
    s.budget ≤ bound -> exists n r, Stmt.ListCosts p body s n r
  | [], _, _ => ⟨_, _, .nil⟩
  | st :: rest, s, hs => by
      rcases stmt_ends hinvoke st s hs with ⟨n, r, hst⟩
      by_cases hnext : exists s₁, r = some (.next, s₁)
      · rcases hnext with ⟨s₁, rfl⟩
        rcases stmts_end hinvoke rest s₁ (Nat.le_trans hst.pays.le hs) with ⟨m, r', hrest⟩
        exact ⟨_, _, .next hst hrest⟩
      · exact ⟨_, _, .last hst fun s₁ h => hnext ⟨s₁, h⟩⟩

end

theorem invokes_end (p : Program) (bound : Nat) : InvokesEnd p bound := by
  induction bound with
  | zero => exact fun _ _ s hs => ⟨_, _, .stopped (spend_of_budget (Nat.le_zero.mp hs))⟩
  | succ bound ih =>
      intro f values s hs
      rcases hspend : spend s with _ | ⟨⟨⟩, s₁⟩
      · exact ⟨_, _, .stopped hspend⟩
      · cases hblock : (p.function f).body with
        | none => exact ⟨_, _, .native hspend hblock⟩
        | some block =>
            rcases stmts_end ih block.body (s₁.push (frameFor p f values))
              (le_of_spend hspend hs) with ⟨n, r, hbody⟩
            exact ⟨_, _, .body hspend hblock hbody⟩

end Ends

/-!
# A larger budget
-/

section Larger

variable {α β : Type} {p : Program} {extra : Nat}

/-- Where the first computation succeeds, the second one does so with more of a budget, and has
that much more left of it. -/
def Outlasts (extra : Nat) (x y : ConstEval α) : Prop :=
  forall s a s₁, x s = some (a, s₁) ->
    y (s.withBudget (s.budget + extra)) = some (a, s₁.withBudget (s₁.budget + extra))

theorem Free.outlasts {x : ConstEval α} (hx : Free x) : Outlasts extra x x := by
  intro s a s₁ h
  rw [hx, h, hx.budget h]
  rfl

theorem outlasts_giveUp (y : ConstEval α) : Outlasts extra giveUp y :=
  nofun

theorem outlasts_spend : Outlasts extra spend spend := by
  intro s _ s₁ h
  have hpaid := (pays_spend h).left _ _ rfl
  unfold spend at h
  split at h
  · cases h
  · rename_i budget hbudget
    cases h
    have hmore : (s.withBudget (s.budget + extra)).budget = (budget + extra) + 1 := by
      show s.budget + extra = _
      omega
    unfold spend
    rw [hmore]
    rfl

theorem Outlasts.bind {x x' : ConstEval α} {f f' : α -> ConstEval β} (hx : Outlasts extra x x')
    (hf : forall a, Outlasts extra (f a) (f' a)) : Outlasts extra (x >>= f) (x' >>= f') := by
  intro s b s₂ h
  rcases bind_eq_some.mp h with ⟨a, s₁, hfirst, hrest⟩
  exact bind_eq_some.mpr ⟨a, _, hx s a s₁ hfirst, hf a s₁ b s₂ hrest⟩

theorem outlasts_inFrame (frame : ConstFrame) {x x' : ConstEval α} (hx : Outlasts extra x x') :
    Outlasts extra (inFrame frame x) (inFrame frame x') := by
  have hframes : forall g : List ConstFrame -> List ConstFrame,
      Free (modify fun s => { s with frames := g s.frames } : ConstEval PUnit) :=
    fun _ _ _ => rfl
  apply (hframes _).outlasts.bind
  intro _
  apply hx.bind
  intro a
  exact (hframes _).outlasts.bind fun _ => (free_pure a).outlasts

abbrev InvokesOutlast (extra : Nat) (invoke invoke' : ConstEval.Invoke) : Prop :=
  forall f values, Outlasts extra (invoke f values) (invoke' f values)

theorem outlasts_loopWithin {cond cond' : ConstEval Bool} {body body' : ConstEval ConstFlow}
    (hcond : Outlasts extra cond cond') (hbody : Outlasts extra body body') {limit limit' : Nat}
    (hlimit : limit ≤ limit') :
    Outlasts extra (loopWithin cond body limit) (loopWithin cond' body' limit') := by
  induction limit generalizing limit' with
  | zero =>
      intro s flow s₁ h
      rcases bind_eq_some.mp h with ⟨b, s₂, hb, hrest⟩
      cases b with
      | true => cases hrest
      | false =>
          cases hrest
          exact loopWithin_of_false (hcond s false s₁ hb)
  | succ limit ih =>
      cases limit' with
      | zero => exact absurd hlimit (Nat.not_succ_le_zero limit)
      | succ limit' =>
          apply hcond.bind
          intro b
          cases b with
          | false => exact (free_pure _).outlasts
          | true =>
              apply outlasts_spend.bind
              intro _
              apply hbody.bind
              intro flow
              cases flow with
              | next => exact ih (Nat.le_of_succ_le_succ hlimit)
              | returned v => exact (free_pure _).outlasts

variable {invoke invoke' : ConstEval.Invoke}

mutual

theorem outlasts_expr (hcalls : InvokesOutlast extra invoke invoke') : forall e : Expr,
    Outlasts extra (expr p invoke e) (expr p invoke' e)
  | .literal _ _ => (free_pure _).outlasts
  | .const _ _ => (free_pure _).outlasts
  | .var _ id => (free_readVar id).outlasts
  | .unary _ _ operand => (outlasts_expr hcalls operand).bind fun _ => (free_ofOption _).outlasts
  | .binary _ _ left right =>
      (outlasts_expr hcalls left).bind fun _ => (outlasts_expr hcalls right).bind fun _ =>
        (free_ofOption _).outlasts
  | .call _ f args => by
      rw [expr, expr]
      split
      · exact outlasts_giveUp _
      · exact (outlasts_arguments hcalls _ args).bind fun values =>
          (hcalls f values).bind fun _ => (free_ofOption _).outlasts

theorem outlasts_arguments (hcalls : InvokesOutlast extra invoke invoke') :
    forall (params : List Param) (args : List Expr),
    Outlasts extra (arguments p invoke params args) (arguments p invoke' params args)
  | [], [] => (free_pure _).outlasts
  | [], _ :: _ => (free_pure _).outlasts
  | _ :: _, [] => (free_pure _).outlasts
  | param :: params, arg :: args => by
      apply (outlasts_expr hcalls arg).bind
      intro v
      split
      · exact (outlasts_arguments hcalls params args).bind fun _ => (free_pure _).outlasts
      · exact outlasts_giveUp _

end

theorem outlasts_condition (hcalls : InvokesOutlast extra invoke invoke') (cond : Expr) :
    Outlasts extra (condition p invoke cond) (condition p invoke' cond) :=
  (outlasts_expr hcalls cond).bind fun _ => (free_ofOption _).outlasts

theorem outlasts_callStmt (hcalls : InvokesOutlast extra invoke invoke') (f : FunId)
    (args : List Expr) : Outlasts extra (callStmt p invoke f args) (callStmt p invoke' f args) := by
  simp only [callStmt]
  split
  · split
    · exact (free_pure _).outlasts
    · exact outlasts_giveUp _
  · exact (outlasts_arguments hcalls _ args).bind fun values => (hcalls f values).bind fun _ =>
      (free_pure _).outlasts

variable {limit limit' : Nat}

mutual

theorem outlasts_stmt (hcalls : InvokesOutlast extra invoke invoke') (hlimit : limit ≤ limit') :
    forall st : Stmt, Outlasts extra (stmt p limit invoke st) (stmt p limit' invoke' st)
  | .constDecl _ _ => (free_pure _).outlasts
  | .funDecl _ _ => (free_pure _).outlasts
  | .varDecl _ _ none => (free_pure _).outlasts
  | .varDecl _ id (some init) =>
      (outlasts_expr hcalls init).bind fun v => (free_store id v).outlasts
  | .block _ body => outlasts_stmts hcalls hlimit body
  | .ifThen _ cond _ body => by
      apply (outlasts_condition hcalls cond).bind
      intro b
      cases b with
      | false => exact (free_pure _).outlasts
      | true => exact outlasts_stmts hcalls hlimit body
  | .whileDo _ cond _ body =>
      outlasts_loopWithin (outlasts_condition hcalls cond) (outlasts_stmts hcalls hlimit body)
        hlimit
  | .ret _ value => (outlasts_expr hcalls value).bind fun _ => (free_pure _).outlasts
  | .assign _ target value =>
      (outlasts_expr hcalls value).bind fun v => (free_store target v).outlasts
  | .call _ f args => outlasts_callStmt hcalls f args
  | .async _ _ _ _ => outlasts_giveUp _
  | .await _ _ => outlasts_giveUp _

theorem outlasts_stmts (hcalls : InvokesOutlast extra invoke invoke') (hlimit : limit ≤ limit') :
    forall body : List Stmt,
    Outlasts extra (stmts p limit invoke body) (stmts p limit' invoke' body)
  | [] => (free_pure _).outlasts
  | st :: rest => by
      apply (outlasts_stmt hcalls hlimit st).bind
      intro flow
      cases flow with
      | next => exact outlasts_stmts hcalls hlimit rest
      | returned v => exact (free_pure _).outlasts

end

theorem outlasts_invokeWithin (p : Program) (extra : Nat) {depth depth' : Nat}
    (hdepth : depth ≤ depth') :
    InvokesOutlast extra (invokeWithin p depth) (invokeWithin p depth') := by
  -- By induction on the number of calls that may be open.
  induction depth generalizing depth' with
  | zero => exact fun _ _ => outlasts_giveUp _
  | succ depth ih =>
      intro f values
      cases depth' with
      | zero => exact absurd hdepth (Nat.not_succ_le_zero depth)
      | succ depth' =>
          have hless := Nat.le_of_succ_le_succ hdepth
          apply outlasts_spend.bind
          intro _
          cases hblock : (p.function f).body with
          | none =>
              simp only [hblock]
              exact outlasts_giveUp _
          | some block =>
              simp only [hblock]
              have hbody := outlasts_stmts (p := p) (ih hless) hless block.body
              exact (outlasts_inFrame _ hbody).bind fun _ => (free_ofOption _).outlasts

end Larger

/-!
# Calls from outside
-/

def ConstState.start (globals : Valuation) (quota : Nat) : ConstState :=
  { globals := globals, frames := [], budget := quota }

/-- What the quota does to a call at compile time. -/
structure QuotaBounds (p : Program) (quota : Nat) (globals : Valuation) (f : FunId)
    (args : List Value) : Prop where
  /-- By the rules, which have no bound of their own, the call comes to an end. -/
  ends : exists n r, InvokeCosts p f args (.start globals quota) n r
  /-- However it ends, no more calls and rounds are entered than the quota has, and the
  answer is that end. -/
  bounded : forall n r, InvokeCosts p f args (.start globals quota) n r ->
    n ≤ quota ∧ evalCall p quota globals f args = r.map fun a => (a.1, a.2.globals)
  /-- With a larger quota a call that succeeds yields the same and leaves the same globals. -/
  larger : forall quota' result, quota ≤ quota' ->
    evalCall p quota globals f args = some result ->
    evalCall p quota' globals f args = some result

theorem quota_bounds (p : Program) (quota : Nat) (globals : Valuation) (f : FunId)
    (args : List Value) : QuotaBounds p quota globals f args where
  ends := invokes_end p quota f args (.start globals quota) (Nat.le_refl _)
  bounded := by
    intro n r h
    refine ⟨h.pays.within, ?_⟩
    exact congrArg (·.map fun a => (a.1, a.2.globals)) (h.eval (Nat.le_refl quota))
  larger := by
    intro quota' result hle h
    rcases Option.map_eq_some_iff.mp h with ⟨⟨value, s⟩, hcall, rfl⟩
    rcases Nat.exists_eq_add_of_le hle with ⟨extra, rfl⟩
    have hmore := outlasts_invokeWithin p extra hle f args _ _ _ hcall
    exact congrArg (·.map fun a => (a.1, a.2.globals)) hmore

section Endless

def roundsProgram (cond : Value) : Program where
  root := []
  constants := []
  vars := [{ name := "on", type := .bool, owner := none, slot := 0, default := some cond }]
  functions :=
    [{ name := "rounds", params := [], result := .none, localCount := 0
       body := some
        { head := { scope := 1, pos := .endOfInput }
          body := [.whileDo .endOfInput (.var .endOfInput 0)
            { scope := 2, pos := .endOfInput }
            [.assign .endOfInput 0 (.literal .endOfInput cond)]] } }]
  globalCount := 1
  globals := [.function 0, .var 0]

example : (evalCall (roundsProgram (.bool true)) 9 (.ofList [(0, .bool true)]) 0 []).isNone := by
  cbv

example : (evalCall (roundsProgram (.bool false)) 2 (.ofList [(0, .bool true)]) 0 []).isSome := by
  cbv

end Endless

end Scriptlet
