import Mathlib.Data.List.Forall2
import Scriptlet.Folding.Statement
import Scriptlet.Proofs.Ensures
import Scriptlet.Proofs.Folding.PureCalls

/-!
# Known values are right

What is known of an expression and may stand in its place is the value that the
expression has wherever the known variables have their values.  Evaluating it there
changes nothing, so neither the value nor an effect is lost with the expression.
-/

namespace Scriptlet

def Expr.HasValue (p : Program) (known : Valuation) (quota : Nat) (e : Expr) (v : Value) : Prop :=
  forall (σ : Type) (l : Loaded σ) (fuel : Nat) (m : Machine σ), l.program = p ->
    quota < fuel -> m.Holds p known -> Eval.expr p (l.invoke fuel) e m = .done v m

def Stmt.DoesNothing (p : Program) (known : Valuation) (quota : Nat) (s : Stmt) : Prop :=
  forall (σ : Type) (l : Loaded σ) (fuel : Nat) (m : Machine σ), l.program = p ->
    quota < fuel -> m.Holds p known ->
    Eval.stmt p fuel (l.invoke fuel) s m = .done .next m

structure Program.Sound (p : Program) : Prop where
  tables : p.Tables
  own : forall f, DeclaresOwn p f (p.mentionsOf f)

/-- The known variables that the pass looks at.  Inside a loop there are none. -/
def FoldMode.visible (mode : FoldMode) (known : Valuation) : Valuation :=
  if mode.constantOnly then .empty else known

/-!
# Arguments
-/

section Arguments

variable {σ : Type} {p : Program} {known : Valuation} {quota : Nat}

theorem arguments_done {l : Loaded σ} {fuel : Nat} {m : Machine σ} (hl : l.program = p)
    (hfuel : quota < fuel) (hm : m.Holds p known) (f : FunId) (pos : Pos) {args : List Expr}
    {values : List Value} (hargs : List.Forall₂ (Expr.HasValue p known quota) args values) :
    forall {params : List Param}, Accepted params values ->
      Eval.arguments p (l.invoke fuel) f pos params args m =
        .done (values.take params.length) m := by
  induction hargs with
  | nil =>
      intro params _
      cases params <;> simp [Eval.arguments]
  | @cons arg value args values hvalue _ ih =>
      intro params haccepted
      cases params with
      | nil => simp [Eval.arguments]
      | cons param params =>
          have hcheck : Eval.checkArgument p f param value pos m = .done () m := by
            rw [Eval.checkArgument, if_pos (haccepted (param, value) List.mem_cons_self)]
            rfl
          have hrest := @ih params
            fun entry hentry => haccepted entry (List.mem_cons_of_mem _ hentry)
          rw [Eval.arguments, Run.bind_done (hvalue σ l fuel m hl hfuel hm),
            Run.bind_done hcheck, Run.bind_done hrest]
          rfl

theorem zip_take_length {α β : Type} (as : List α) (bs : List β) :
    as.zip (bs.take as.length) = as.zip bs := by
  induction as generalizing bs with
  | nil => simp
  | cons a as ih =>
      cases bs with
      | nil => rfl
      | cons b bs => simp [ih bs]

theorem invoke_take (l : Loaded σ) {f : FunId} (hbody : (l.program.function f).isNative = false)
    (fuel : Nat) (values : List Value) (pos : Pos) :
    l.invoke fuel f (values.take (l.program.function f).params.length) pos =
      l.invoke fuel f values pos := by
  cases fuel with
  | zero => rfl
  | succ fuel =>
      cases hblock : (l.program.function f).body with
      | none => simp [Function.isNative, hblock] at hbody
      | some block =>
          have hframe : (Eval.callFrame l.program f
              (values.take (l.program.function f).params.length) : Frame) =
              Eval.callFrame l.program f values := by
            rw [Eval.callFrame, Eval.callFrame, zip_take_length]
          simp only [Loaded.invoke, hblock, hframe]

end Arguments

/-!
# Folding expressions
-/

section Folding

variable {s s' : FoldState} {mode : FoldMode}

structure Counted (s s' : FoldState) : Prop where
  program : s'.program = s.program
  known : s'.known = s.known

theorem Counted.refl (s : FoldState) : Counted s s :=
  ⟨rfl, rfl⟩

variable {fault : FoldError -> Prop}

theorem counted_replace (k : Known) (e : Expr) (s : FoldState) :
    Ensures fault (Fold.replace k e) s fun _ s' => Counted s s' := by
  apply Ensures.ite
  · intro _
    exact Counted.refl s
  · intro _
    cases e <;> exact ⟨rfl, rfl⟩

theorem counted_settle (x : FoldedExpr) (s : FoldState) :
    Ensures fault (Fold.settle x) s fun _ s' => Counted s s' := by
  unfold Fold.settle
  cases x.known with
  | none => exact Counted.refl s
  | some k => exact counted_replace k x.tree s

theorem counted_of_settle {x : FoldedExpr} {tree : Expr}
    (h : Fold.settle x s = .ok (tree, s')) : Counted s s' := by
  have hcounted : Yields (Fold.settle x) s fun _ s' => Counted s s' := counted_settle x s
  exact hcounted.of_ok h

theorem yields_operator (pos : Pos) (elidable : Bool) (result : Except OpError Value)
    (s : FoldState) :
    Yields (Fold.operator pos elidable result) s fun known s' =>
      s' = s ∧ forall k, known = some k -> result = .ok k.value ∧ k.elidable = elidable := by
  unfold Fold.operator
  cases result with
  | ok value =>
      refine ⟨rfl, ?_⟩
      intro k hk
      cases hk
      exact ⟨rfl, rfl⟩
  | error e =>
      apply Ensures.ite
      · intro _
        exact ⟨rfl, fun k hk => nomatch hk⟩
      · intro _
        trivial

theorem yields_checkArguments (p : Program) (f : Function) (pos : Pos) (s : FoldState) :
    forall (params : List Param) (values : List Value),
      Yields (Fold.checkArguments p f pos params values) s fun _ s' =>
        s' = s ∧ Accepted params values
  | param :: params, value :: values => by
      apply Ensures.ite
      · intro haccepts
        apply (yields_checkArguments p f pos s params values).mono
        intro _ s' hrest
        refine ⟨hrest.1, ?_⟩
        intro entry hentry
        rcases List.mem_cons.mp hentry with hentry | hentry
        · rw [hentry]
          exact haccepts
        · exact hrest.2 entry hentry
      · intro _
        trivial
  | [], _ => ⟨rfl, fun _ hentry => nomatch hentry⟩
  | _ :: _, [] => ⟨rfl, fun _ hentry => nomatch hentry⟩

theorem yields_forgetGlobalsIf (impure : Bool) (s : FoldState) :
    Yields (Fold.forgetGlobalsIf impure) s fun _ s' => s'.program = s.program := by
  cases impure <;> exact rfl

def CallHasResult (p : Program) (known : Valuation) (quota : Nat) (f : FunId)
    (values : List Value) (result : Option Value) : Prop :=
  forall (σ : Type) (l : Loaded σ) (fuel : Nat) (m : Machine σ) (pos : Pos), l.program = p ->
    quota < fuel -> m.Holds p known -> l.invoke fuel f values pos m = .done result m

theorem callHasResult_of_evalCall {p : Program} (hp : p.Sound) {f : FunId}
    (hpure : p.hasSideEffects f = false) {known globals : Valuation} {values : List Value}
    {result : Option Value}
    (hcall : evalCall p mode.quota (Fold.callGlobals mode p known) f values =
      some (result, globals)) :
    CallHasResult p (mode.visible known) mode.quota f values result := by
  intro σ l fuel m pos hl hfuel hm
  subst hl
  refine invoke_of_evalCall hp.tables (hp.own f) hpure ?_ hfuel hcall pos
  intro id v _ hv
  unfold Fold.callGlobals at hv
  unfold FoldMode.visible at hm
  by_cases hmode : mode.constantOnly = true
  · rw [if_pos hmode] at hv
    cases hv
  · rw [if_neg hmode, Valuation.get?_keep] at hv
    rw [if_neg hmode] at hm
    split at hv
    · exact hm id v hv
    · cases hv

structure CallFolded (mode : FoldMode) (f : FunId) (xs : FoldedArgs) (s : FoldState)
    (call : Option FoldedCall) (s' : FoldState) : Prop where
  program : s'.program = s.program
  sound : forall c, call = some c -> c.elidable = true ->
    s'.known = s.known ∧ xs.elidable = true ∧ (s.program.function f).isNative = false ∧
      exists values, xs.values = some values ∧
        Accepted (s.program.function f).params values ∧
        CallHasResult s.program (mode.visible s.known) mode.quota f values c.value

theorem yields_runCall (hs : s.program.Sound) (pos : Pos) {f : FunId} {values : List Value}
    {elidable impure : Bool} (hpure : impure = false -> s.program.hasSideEffects f = false) :
    Yields (Fold.runCall mode pos f values elidable impure) s fun call s' =>
      s'.program = s.program ∧ forall c, call = some c -> c.elidable = true ->
        s'.known = s.known ∧ elidable = true ∧
          Accepted (s.program.function f).params values ∧
          CallHasResult s.program (mode.visible s.known) mode.quota f values c.value := by
  apply Ensures.get_bind
  apply (yields_checkArguments s.program (s.program.function f) pos s
    (s.program.function f).params values).bind
  intro _ s₁ hchecked
  cases hchecked.1
  cases hcall : evalCall s.program mode.quota (Fold.callGlobals mode s.program s.known) f values with
  | none =>
      apply (yields_forgetGlobalsIf impure s).bind
      intro _ s₂ hprogram
      exact ⟨hprogram, fun c hc => nomatch hc⟩
  | some answer =>
      cases himpure : impure with
      | true =>
          refine ⟨rfl, ?_⟩
          intro c hc helidable
          cases hc
          cases helidable
      | false =>
          refine ⟨rfl, ?_⟩
          intro c hc helidable
          cases hc
          refine ⟨rfl, by simpa using helidable, hchecked.2, ?_⟩
          exact callHasResult_of_evalCall hs (hpure himpure) hcall

theorem callFolded_none {f : FunId} {xs : FoldedArgs} (hprogram : s'.program = s.program) :
    CallFolded mode f xs s none s' :=
  ⟨hprogram, fun _ hc => nomatch hc⟩

theorem yields_callWith (hs : s.program.Sound) (pos : Pos) (f : FunId) (xs : FoldedArgs) :
    Yields (Fold.callWith mode pos f xs) s (CallFolded mode f xs s) := by
  have hforget : forall impure : Bool,
      Yields (do
        Fold.forgetGlobalsIf impure
        return none) s (CallFolded mode f xs s) := by
    intro impure
    apply (yields_forgetGlobalsIf impure s).bind
    intro _ s₁ hprogram
    exact callFolded_none hprogram
  apply Ensures.get_bind
  apply Ensures.ite
  · intro _
    exact callFolded_none rfl
  · intro hfollowed
    have hnative : (s.program.function f).isNative = false := by
      cases hnative : (s.program.function f).isNative with
      | false => rfl
      | true => simp [hnative] at hfollowed
    cases hvalues : xs.values with
    | none => exact hforget _
    | some values =>
        apply Ensures.ite
        · intro _
          exact hforget _
        · intro _
          have hpure : (mode.folding.contains f || s.program.hasSideEffects f) = false ->
              s.program.hasSideEffects f = false := by
            intro himpure
            exact (Bool.or_eq_false_iff.mp himpure).2
          apply (yields_runCall hs pos hpure).mono
          intro call s' hcall
          refine ⟨hcall.1, ?_⟩
          intro c hc helidable
          rcases hcall.2 c hc helidable with ⟨hknown, hargs, haccepted, hresult⟩
          exact ⟨hknown, hargs, hnative, values, hvalues, haccepted, hresult⟩

/-!
# Expressions and their arguments
-/

structure ExprFolded (mode : FoldMode) (e : Expr) (s : FoldState) (x : FoldedExpr)
    (s' : FoldState) : Prop where
  program : s'.program = s.program
  sound : forall k, x.known = some k -> k.elidable = true ->
    s'.known = s.known ∧ e.HasValue s.program (mode.visible s.known) mode.quota k.value

structure ArgsFolded (mode : FoldMode) (args : List Expr) (s : FoldState) (xs : FoldedArgs)
    (s' : FoldState) : Prop where
  program : s'.program = s.program
  sound : forall values, xs.values = some values -> xs.elidable = true ->
    s'.known = s.known ∧
      List.Forall₂ (Expr.HasValue s.program (mode.visible s.known) mode.quota) args values

theorem exprFolded_unknown {e : Expr} {tree : Expr} (hprogram : s'.program = s.program) :
    ExprFolded mode e s { tree := tree, known := none } s' :=
  ⟨hprogram, fun _ hk => nomatch hk⟩

theorem yields_settleSlot (x : FoldedExpr) (s : FoldState) :
    Yields (Fold.settleSlot mode x) s fun y s' =>
      s'.program = s.program ∧ y.known = x.known ∧ (x.known.isSome -> s'.known = s.known) := by
  unfold Fold.settleSlot
  cases hknown : x.known with
  | some k =>
      apply (counted_replace k x.tree s).bind
      intro tree s₁ hcounted
      exact ⟨hcounted.program, rfl, fun _ => hcounted.known⟩
  | none =>
      apply Ensures.ite
      · intro _
        exact ⟨rfl, hknown, fun h => nomatch h⟩
      · intro _
        exact ⟨rfl, hknown, fun h => nomatch h⟩

theorem hasValue_var {p : Program} {known : Valuation} {quota : Nat} (pos : Pos) {id : VarId}
    {v : Value} (hv : known.get? id = some v) : (Expr.var pos id).HasValue p known quota v := by
  intro σ l fuel m _ _ hm
  simp only [Eval.expr, Eval.readVar, hm id v hv]

theorem hasValue_unary {p : Program} {known : Valuation} {quota : Nat} (pos : Pos) {op : UnaryOp}
    {operand : Expr} {v w : Value} (hoperand : operand.HasValue p known quota v)
    (hw : op.apply v = .ok w) : (Expr.unary pos op operand).HasValue p known quota w := by
  intro σ l fuel m hl hfuel hm
  rw [Eval.expr, Run.bind_done (hoperand σ l fuel m hl hfuel hm), hw]
  rfl

theorem hasValue_binary {p : Program} {known : Valuation} {quota : Nat} (pos : Pos)
    {op : BinaryOp} {left right : Expr} {v w result : Value}
    (hleft : left.HasValue p known quota v) (hright : right.HasValue p known quota w)
    (hresult : op.apply v w = .ok result) :
    (Expr.binary pos op left right).HasValue p known quota result := by
  intro σ l fuel m hl hfuel hm
  rw [Eval.expr, Run.bind_done (hleft σ l fuel m hl hfuel hm),
    Run.bind_done (hright σ l fuel m hl hfuel hm), hresult]
  rfl

theorem hasValue_call {p : Program} {known : Valuation} {quota : Nat} (pos : Pos) {f : FunId}
    {args : List Expr} {values : List Value} {v : Value}
    (hnative : (p.function f).isNative = false)
    (hargs : List.Forall₂ (Expr.HasValue p known quota) args values)
    (haccepted : Accepted (p.function f).params values)
    (hresult : CallHasResult p known quota f values (some v)) :
    (Expr.call pos f args).HasValue p known quota v := by
  intro σ l fuel m hl hfuel hm
  subst hl
  have hinvoke := hresult σ l fuel m pos rfl hfuel hm
  rw [← invoke_take l hnative] at hinvoke
  rw [Eval.expr, Run.bind_done (arguments_done rfl hfuel hm f pos hargs haccepted),
    Run.bind_done hinvoke]
  rfl

theorem doesNothing_call {p : Program} {known : Valuation} {quota : Nat} (pos : Pos) {f : FunId}
    {args : List Expr} {values : List Value} {result : Option Value}
    (hnative : (p.function f).isNative = false)
    (hargs : List.Forall₂ (Expr.HasValue p known quota) args values)
    (haccepted : Accepted (p.function f).params values)
    (hresult : CallHasResult p known quota f values result) :
    (Stmt.call pos f args).DoesNothing p known quota := by
  intro σ l fuel m hl hfuel hm
  subst hl
  have hinvoke := hresult σ l fuel m pos rfl hfuel hm
  rw [← invoke_take l hnative] at hinvoke
  rw [Eval.stmt, Run.bind_done (arguments_done rfl hfuel hm f pos hargs haccepted),
    Run.bind_done hinvoke]
  rfl

theorem yields_unary (pos : Pos) (op : UnaryOp) {operand : Expr} {x : FoldedExpr} {s₀ : FoldState}
    (hx : ExprFolded mode operand s₀ x s) :
    Yields (do
      let tree := Expr.unary pos op (← Fold.settle x)
      match x.known with
      | some k =>
          return { tree := tree, known := ← Fold.operator pos k.elidable (op.apply k.value) }
      | none => return { tree := tree, known := none }) s
      (ExprFolded mode (.unary pos op operand) s₀) := by
  apply (counted_settle x s).bind
  intro tree s₁ hcounted
  have hprogram : s₁.program = s₀.program := hcounted.program.trans hx.program
  cases hknown : x.known with
  | none => exact exprFolded_unknown hprogram
  | some k =>
      apply (yields_operator pos k.elidable (op.apply k.value) s₁).bind
      intro known s₂ hop
      rw [hop.1]
      refine ⟨hprogram, ?_⟩
      intro k' hk' helidable
      rcases hop.2 k' hk' with ⟨happly, hsame⟩
      rcases hx.sound k hknown (hsame.symm.trans helidable) with ⟨hsame_known, hvalue⟩
      exact ⟨hcounted.known.trans hsame_known, hasValue_unary pos hvalue happly⟩

mutual

theorem yields_expr (mode : FoldMode) : forall (e : Expr) {s : FoldState}, s.program.Sound ->
    Yields (Fold.expr mode e) s (ExprFolded mode e s)
  | .literal pos value, s, _ => by
      refine ⟨rfl, ?_⟩
      intro k hk _
      cases hk
      exact ⟨rfl, fun _ _ _ _ _ _ _ => rfl⟩
  | .const pos id, s, _ => by
      refine ⟨rfl, ?_⟩
      intro k hk _
      cases hk
      exact ⟨rfl, fun _ _ _ _ _ _ _ => rfl⟩
  | .var pos id, s, _ => by
      refine ⟨rfl, ?_⟩
      intro k hk _
      rcases Option.map_eq_some_iff.mp hk with ⟨v, hv, hpair⟩
      cases hpair
      refine ⟨rfl, hasValue_var pos ?_⟩
      unfold FoldMode.visible
      by_cases hmode : mode.constantOnly = true
      · rw [if_pos hmode] at hv
        cases hv
      · rw [if_neg hmode] at hv ⊢
        exact hv
  | .unary pos op operand, s, hs =>
      (yields_expr mode operand hs).bind fun _ _ hx => yields_unary pos op hx
  | .binary pos op left right, s, hs => by
      apply (yields_expr mode left hs).bind
      intro l s₁ hl
      apply (counted_settle l s₁).bind
      intro lTree s₂ hcounted
      have hprogram₂ : s₂.program = s.program := hcounted.program.trans hl.program
      cases hlk : l.known with
      | none => exact exprFolded_unknown hprogram₂
      | some lk =>
          apply (yields_expr mode right (hprogram₂ ▸ hs)).bind
          intro r s₃ hr
          apply (counted_settle r s₃).bind
          intro rTree s₄ hcounted'
          have hprogram₄ : s₄.program = s.program :=
            hcounted'.program.trans (hr.program.trans hprogram₂)
          cases hrk : r.known with
          | none => exact exprFolded_unknown hprogram₄
          | some rk =>
              apply (yields_operator pos (lk.elidable && rk.elidable) _ s₄).bind
              intro known s₅ hop
              rw [hop.1]
              refine ⟨hprogram₄, ?_⟩
              intro k hk helidable
              rcases hop.2 k hk with ⟨happly, hsame⟩
              rw [hsame, Bool.and_eq_true] at helidable
              rcases hl.sound lk hlk helidable.1 with ⟨hknown₁, hleft⟩
              rcases hr.sound rk hrk helidable.2 with ⟨hknown₃, hright⟩
              have hknown₂ : s₂.known = s.known := hcounted.known.trans hknown₁
              rw [hprogram₂, hknown₂] at hright
              exact ⟨hcounted'.known.trans (hknown₃.trans hknown₂),
                hasValue_binary pos hleft hright happly⟩
  | .call pos f args, s, hs => by
      apply (yields_arguments mode args hs).bind
      intro xs s₁ hxs
      apply (yields_callWith (hxs.program ▸ hs) pos f xs).bind
      intro call s₂ hcall
      refine ⟨hcall.program.trans hxs.program, ?_⟩
      intro k hk helidable
      cases hcalled : call with
      | none =>
          rw [hcalled] at hk
          cases hk
      | some c =>
          rw [hcalled] at hk
          rcases Option.map_eq_some_iff.mp hk with ⟨v, hv, hpair⟩
          cases hpair
          rcases hcall.sound c hcalled helidable with
            ⟨hknown, hargs, hnative, values, hvalues, haccepted, hresult⟩
          rcases hxs.sound values hvalues hargs with ⟨hknown₁, hvalued⟩
          rw [hxs.program] at hnative haccepted hresult
          rw [hknown₁, hv] at hresult
          exact ⟨hknown.trans hknown₁, hasValue_call pos hnative hvalued haccepted hresult⟩

theorem yields_arguments (mode : FoldMode) : forall (args : List Expr) {s : FoldState},
    s.program.Sound -> Yields (Fold.arguments mode args) s (ArgsFolded mode args s)
  | [], s, _ => by
      refine ⟨rfl, ?_⟩
      intro values hvalues _
      cases hvalues
      exact ⟨rfl, .nil⟩
  | arg :: rest, s, hs => by
      apply (yields_expr mode arg hs).bind
      intro x s₁ hx
      apply (yields_settleSlot x s₁).bind
      intro y s₂ hy
      have hprogram₂ : s₂.program = s.program := hy.1.trans hx.program
      apply Ensures.ite
      · intro _
        exact ⟨hprogram₂, fun _ hvalues => nomatch hvalues⟩
      · intro _
        apply (yields_arguments mode rest (hprogram₂ ▸ hs)).bind
        intro xs s₃ hxs
        refine ⟨hxs.program.trans hprogram₂, ?_⟩
        intro values hvalues helidable
        unfold Fold.FoldedArgs.cons at hvalues helidable
        cases hyk : y.known with
        | none =>
            rw [hyk] at hvalues
            cases hvalues
        | some k =>
            cases hrest : xs.values with
            | none =>
                rw [hyk, hrest] at hvalues
                cases hvalues
            | some rest =>
                rw [hyk, hrest] at hvalues
                rw [hyk, Bool.and_eq_true] at helidable
                cases hvalues
                rcases hx.sound k (hy.2.1.symm.trans hyk) helidable.1 with ⟨hknown₁, hvalue⟩
                rcases hxs.sound rest hrest helidable.2 with ⟨hknown₃, hvalued⟩
                have hknown₂ : s₂.known = s.known := by
                  apply Eq.trans _ hknown₁
                  apply hy.2.2
                  rw [← hy.2.1, hyk]
                  rfl
                rw [hprogram₂, hknown₂] at hvalued
                exact ⟨hknown₃.trans hknown₂, .cons hvalue hvalued⟩

end

end Folding
end Scriptlet
