import Scriptlet.Proofs.Folding.FollowedCalls

/-!
# Runs of folded expressions

In a run that begins where the known variables have their values, an expression may be
replaced by what it was folded to.  Where its value is known it has that value, and where a
literal may stand for it, nothing else happens in it.
-/

namespace Scriptlet

/-!
# Expressions in the place of others
-/

/-- Where the variables are known, the second expression may be evaluated in the place of the
first one, if the fuel is enough.  If a result is given, it is the value, and behind it the
variables of the second valuation are known. -/
def Expr.ServedBy (p : Program) (enough : Nat) (known : Valuation) (e e' : Expr)
    (result : Option Value) (after : Valuation) : Prop :=
  forall (σ : Type) (l : Loaded σ) (fuel : Nat), l.program = p ->
    EndsAlike (enough ≤ fuel) (Machine.Knows p known) (Eval.expr p (l.invoke fuel) e)
      (Eval.expr p (l.invoke fuel) e') fun v m =>
        forall w, result = some w -> v = w ∧ m.Knows p after

def Expr.ListServedBy (p : Program) (enough : Nat) (known : Valuation) (args args' : List Expr)
    (results : Option (List Value)) (after : Valuation) : Prop :=
  forall (σ : Type) (l : Loaded σ) (fuel : Nat) (f : FunId) (pos : Pos) (params : List Param),
    l.program = p -> params.length = args.length ->
    EndsAlike (enough ≤ fuel) (Machine.Knows p known)
      (Eval.arguments p (l.invoke fuel) f pos params args)
      (Eval.arguments p (l.invoke fuel) f pos params args') fun values m =>
        m.Knows p after ∧ forall ws, results = some ws -> values = ws

def Expr.ListYields (p : Program) (enough : Nat) (known : Valuation) (args : List Expr)
    (values : List Value) : Prop :=
  forall (σ : Type) (l : Loaded σ) (fuel : Nat) (f : FunId) (pos : Pos) (params : List Param),
    l.program = p -> params.length = args.length -> Accepted params values ->
    EndsAlike (enough ≤ fuel) (Machine.Knows p known)
      (Eval.arguments p (l.invoke fuel) f pos params args) (pure values) fun vs m =>
        vs = values ∧ m.Knows p known

section Rules

variable {p : Program} {enough : Nat} {known mid after : Valuation} {pos : Pos}
  {e e' left left' right right' : Expr} {result result' : Option Value} {v w : Value}

theorem servedBy_self (e : Expr) : e.ServedBy p enough known e none after := by
  intro σ l fuel _
  apply endsAlike_self
  exact fun _ _ _ _ _ _ hw => nomatch hw

theorem servedBy_of_done
    (h : forall (σ : Type) (l : Loaded σ) (fuel : Nat) (m : Machine σ), l.program = p ->
      m.Holds p known -> Eval.expr p (l.invoke fuel) e m = .done v m ∧
        Eval.expr p (l.invoke fuel) e' m = .done v m) :
    e.ServedBy p enough known e' (some v) known := by
  intro σ l fuel hl m hm
  rcases h σ l fuel m hl hm.holds with ⟨he, he'⟩
  rw [he, he']
  refine ⟨.refl _, ?_⟩
  intro a m' hdone w hw
  cases hdone
  cases hw
  exact ⟨rfl, hm⟩

theorem Expr.ServedBy.unary (h : e.ServedBy p enough known e' result after) (op : UnaryOp)
    (hresult : forall w, result' = some w -> exists v, result = some v ∧ op.apply v = .ok w) :
    (Expr.unary pos op e).ServedBy p enough known (.unary pos op e') result' after := by
  intro σ l fuel hl
  apply (h σ l fuel hl).bind
  intro v
  apply endsAlike_self
  intro m a m' hm hrun w hw
  rcases hresult w hw with ⟨v', hv', happly⟩
  rcases hm v' hv' with ⟨rfl, hknows⟩
  rw [happly] at hrun
  cases hrun
  exact ⟨rfl, hknows⟩

theorem Expr.ServedBy.binary_left (h : left.ServedBy p enough known left' result mid)
    (op : BinaryOp) (right : Expr) :
    (Expr.binary pos op left right).ServedBy p enough known (.binary pos op left' right) none
      after := by
  intro σ l fuel hl
  apply (h σ l fuel hl).bind
  intro v
  apply endsAlike_self
  exact fun _ _ _ _ _ _ hw => nomatch hw

theorem Expr.ServedBy.binary (hleft : left.ServedBy p enough known left' (some v) mid)
    (hright : right.ServedBy p enough mid right' result after) (op : BinaryOp)
    (hresult : forall w, result' = some w -> exists r, result = some r ∧ op.apply v r = .ok w) :
    (Expr.binary pos op left right).ServedBy p enough known (.binary pos op left' right') result'
      after := by
  intro σ l fuel hl
  apply (hleft σ l fuel hl).bind
  intro lv
  apply endsAlike_of_pre
  intro _ hm
  cases (hm v rfl).1
  apply ((hright σ l fuel hl).mono (fun m hm => (hm _ rfl).2) fun _ _ => id).bind
  intro rv
  apply endsAlike_self
  intro m a m' hm hrun w hw
  rcases hresult w hw with ⟨r, hr, happly⟩
  rcases hm r hr with ⟨rfl, hknows⟩
  rw [happly] at hrun
  cases hrun
  exact ⟨rfl, hknows⟩

theorem Expr.ServedBy.congr {e'' : Expr} (h : e.ServedBy p enough known e' result after)
    (hsame : forall (σ : Type) (invoke : Invoke σ),
      Eval.expr p invoke e' = Eval.expr p invoke e'') :
    e.ServedBy p enough known e'' result after := by
  intro σ l fuel hl
  rw [← hsame]
  exact h σ l fuel hl

/-!
# Arguments
-/

section Arguments

variable {arg arg' : Expr} {args args' : List Expr} {results : Option (List Value)}
  {values : List Value}

theorem listServedBy_nil : Expr.ListServedBy p enough known [] [] (some []) known := by
  intro σ l fuel f pos params _ hlength
  cases List.length_eq_zero_iff.mp hlength
  apply endsAlike_pure
  intro m hm
  refine ⟨hm, ?_⟩
  intro ws hws
  cases hws
  rfl

theorem listYields_nil : Expr.ListYields p enough known [] [] := by
  intro σ l fuel f pos params _ hlength _
  cases List.length_eq_zero_iff.mp hlength
  exact endsAlike_pure fun m hm => ⟨rfl, hm⟩

theorem endsAlike_checkArgument {σ : Type} {alike : Prop} {pre : Machine σ -> Prop} (f : FunId)
    (param : Param) (v : Value) (pos : Pos) :
    EndsAlike alike pre (Eval.checkArgument p f param v pos) (Eval.checkArgument p f param v pos)
      fun _ m => pre m := by
  apply endsAlike_self
  intro m _ m' hm hrun
  unfold Eval.checkArgument at hrun
  split at hrun
  · cases hrun
    exact hm
  · cases hrun

theorem Expr.ListServedBy.cons (harg : arg.ServedBy p enough known arg' result mid)
    (hknows : forall (σ : Type) (l : Loaded σ) (fuel : Nat) (m m' : Machine σ) (v : Value),
      l.program = p -> m.Knows p known ->
      Eval.expr p (l.invoke fuel) arg m = .done v m' -> m'.Knows p mid)
    (hrest : Expr.ListServedBy p enough mid args args' results after)
    {results' : Option (List Value)}
    (hresults : forall ws, results' = some ws ->
      exists w rest, ws = w :: rest ∧ result = some w ∧ results = some rest) :
    Expr.ListServedBy p enough known (arg :: args) (arg' :: args') results' after := by
  intro σ l fuel f pos params hl hlength
  cases params with
  | nil => cases hlength
  | cons param params =>
      have hhead := (harg σ l fuel hl).and fun m v m' hm => hknows σ l fuel m m' v hl hm
      apply hhead.bind
      intro v
      apply (endsAlike_checkArgument f param v pos).bind
      intro _
      apply endsAlike_of_pre
      intro _ hv
      have hbehind := hrest σ l fuel f pos params hl (Nat.succ.inj hlength)
      apply (hbehind.mono (fun m hm => hm.2) fun _ _ => id).bind
      intro values
      apply endsAlike_pure
      intro m hm
      refine ⟨hm.1, ?_⟩
      intro ws hws
      rcases hresults ws hws with ⟨w, rest, rfl, hw, hrest⟩
      rw [(hv.1 w hw).1, hm.2 rest hrest]

theorem Expr.ServedBy.listYields
    (harg : arg.ServedBy p enough known (.literal pos v) (some v) known)
    (hrest : Expr.ListYields p enough known args values) :
    Expr.ListYields p enough known (arg :: args) (v :: values) := by
  intro σ l fuel f pos params hl hlength haccepted
  cases params with
  | nil => cases hlength
  | cons param params =>
      have hrest := hrest σ l fuel f pos params hl (Nat.succ.inj hlength)
        fun entry hentry => haccepted entry (List.mem_cons_of_mem _ hentry)
      apply (harg σ l fuel hl).skip
      have hcheck : Eval.checkArgument p f param v pos = (pure () : Eval σ Unit) :=
        if_pos (haccepted (param, v) List.mem_cons_self)
      rw [hcheck]
      apply (hrest.mono (fun m hm => (hm v rfl).2) fun _ _ => id).skip
      exact endsAlike_pure fun m hm => ⟨rfl, hm.2⟩

end Arguments

/-!
# Calls
-/

section Calls

variable {f : FunId} {args args' : List Expr} {results : Option (List Value)}
  {followed : Option FoldedCall}

theorem Expr.ListServedBy.call (h : Expr.ListServedBy p enough known args args' results mid)
    (hlength : (p.function f).params.length = args.length)
    (htells : p.CallTells f results mid after followed) :
    (Expr.call pos f args).ServedBy p enough known (.call pos f args')
      ((followed.bind Fold.FoldedCall.known?).map Known.value) after := by
  intro σ l fuel hl
  apply (h σ l fuel f pos _ hl hlength).bind
  intro values
  have hinvoke : EndsAlike (enough ≤ fuel)
      (fun m => m.Knows p mid ∧ forall ws, results = some ws -> values = ws)
      (l.invoke fuel f values pos) (l.invoke fuel f values pos) fun result m =>
        m.Knows p after ∧ forall c, followed = some c -> result = c.value :=
    endsAlike_self fun m result m' hm hrun =>
      htells σ l fuel m m' values pos result hl hm.1 hm.2 hrun
  apply hinvoke.bind
  intro result
  cases result with
  | none => exact endsAlike_failAt _ _
  | some v =>
      apply endsAlike_pure
      intro m hm w hw
      rcases Option.map_eq_some_iff.mp hw with ⟨k, hk, rfl⟩
      rcases Option.bind_eq_some_iff.mp hk with ⟨c, hc, hvalue⟩
      rcases Option.map_eq_some_iff.mp hvalue with ⟨u, hu, rfl⟩
      have hsame := hm.2 c hc
      rw [hu] at hsame
      cases hsame
      exact ⟨rfl, hm.1⟩

theorem Expr.ListYields.call {values : List Value}
    (h : Expr.ListYields p enough known args values)
    (hlength : (p.function f).params.length = args.length)
    (haccepted : Accepted (p.function f).params values)
    (hyields : p.CallYields f values known enough (some v)) (pos' : Pos) :
    (Expr.call pos f args).ServedBy p enough known (.literal pos' v) (some v) known := by
  intro σ l fuel hl
  apply (h σ l fuel f pos _ hl hlength haccepted).skip
  apply ((hyields σ l fuel pos hl).mono (fun m hm => hm.2) fun _ _ => id).skip
  apply endsAlike_pure
  intro m hm w hw
  cases hw
  exact ⟨rfl, hm.2⟩

end Calls
end Rules

/-!
# The pass over an expression
-/

/-- The mention fits, and a call is one of a function whose body is being folded, or comes by
none of these. -/
structure Mention.Followed (p : Program) (folding : List FunId) (m : Mention) : Prop where
  fits : m.FitsSomewhere p
  closed : forall f, m.callee? = some f -> f ∈ folding ∨ p.Avoids folding f

/-- What folding an expression finds out about the runs of the original program. -/
structure ExprServed (p : Program) (least : Nat) (mode : FoldMode) (e : Expr) (s : FoldState)
    (x : FoldedExpr) (s' : FoldState) : Prop where
  program : s'.program = s.program
  runs : e.ServedBy p (mode.quota + 1 + least) (mode.visible s.known) x.tree
    (x.known.map Known.value) (mode.visible s'.known)
  elided : forall k pos, x.known = some k -> k.elidable = true -> s'.known = s.known ∧
    e.ServedBy p (mode.quota + 1 + least) (mode.visible s.known) (.literal pos k.value)
      (some k.value) (mode.visible s.known)
  unlearnt : x.tree.hasCall = false -> s'.known = s.known

structure ArgsServed (p : Program) (least : Nat) (mode : FoldMode) (args : List Expr)
    (s : FoldState) (xs : FoldedArgs) (s' : FoldState) : Prop where
  program : s'.program = s.program
  runs : Expr.ListServedBy p (mode.quota + 1 + least) (mode.visible s.known) args xs.trees
    xs.values (mode.visible s'.known)
  elided : forall values, xs.values = some values -> xs.elidable = true -> s'.known = s.known ∧
    Expr.ListYields p (mode.quota + 1 + least) (mode.visible s.known) args values

/-- What folding a whole slot finds out.  Whether its value is known or not, the variables are
known behind it. -/
structure SlotServed (p : Program) (least : Nat) (mode : FoldMode) (e : Expr) (s : FoldState)
    (x : FoldedExpr) (s' : FoldState) : Prop extends ExprServed p least mode e s x s' where
  behind : forall (σ : Type) (l : Loaded σ) (fuel : Nat) (m m' : Machine σ) (v : Value),
    l.program = p -> m.Knows p (mode.visible s.known) ->
    Eval.expr p (l.invoke fuel) e m = .done v m' -> m'.Knows p (mode.visible s'.known)

section Settling

variable {p : Program} {least : Nat} {mode : FoldMode} {e : Expr} {s s₁ s₂ : FoldState}
  {x : FoldedExpr}

theorem ExprServed.counted (h : ExprServed p least mode e s x s₁) (hcounted : Counted s₁ s₂) :
    ExprServed p least mode e s x s₂ where
  program := hcounted.program.trans h.program
  runs := by
    rw [hcounted.known]
    exact h.runs
  elided := by
    rw [hcounted.known]
    exact h.elided
  unlearnt := by
    rw [hcounted.known]
    exact h.unlearnt

theorem ExprServed.literal (h : ExprServed p least mode e s x s₁) {k : Known}
    (hknown : x.known = some k) (helidable : k.elidable = true) (pos : Pos) :
    ExprServed p least mode e s { tree := .literal pos k.value, known := some k } s₁ where
  program := h.program
  runs := by
    rcases h.elided k pos hknown helidable with ⟨hsame, hserved⟩
    rw [hsame]
    exact hserved
  elided := fun k' pos' hk' => h.elided k' pos' (hknown.trans hk')
  unlearnt := fun _ => (h.elided k pos hknown helidable).1

theorem served_replace {k : Known} {tree : Expr}
    (h : ExprServed p least mode e s { tree := tree, known := some k } s₁) :
    Yields (Fold.replace k tree) s₁ fun tree' s₂ =>
      ExprServed p least mode e s { tree := tree', known := some k } s₂ := by
  apply Ensures.ite
  · intro _
    exact h
  · intro hreplaced
    have helidable : k.elidable = true := by
      cases helidable : k.elidable with
      | true => rfl
      | false => simp [helidable] at hreplaced
    cases tree <;> exact (h.literal rfl helidable _).counted ⟨rfl, rfl⟩

theorem served_settle (h : ExprServed p least mode e s x s₁) :
    Yields (Fold.settle x) s₁ fun tree s₂ =>
      ExprServed p least mode e s { tree := tree, known := x.known } s₂ := by
  obtain ⟨tree, known⟩ := x
  cases known with
  | none => exact h
  | some k => exact served_replace h

end Settling

/-!
# Parts of expressions
-/

section Parts

variable {p : Program} {least : Nat} {mode : FoldMode} {s s₁ s₂ : FoldState} {pos : Pos}

theorem served_leaf {e : Expr} {v : Value}
    (h : forall (σ : Type) (l : Loaded σ) (fuel : Nat) (m : Machine σ), l.program = p ->
      m.Holds p (mode.visible s.known) -> Eval.expr p (l.invoke fuel) e m = .done v m) :
    ExprServed p least mode e s { tree := e, known := some { value := v, elidable := true } }
      s where
  program := rfl
  runs := servedBy_of_done fun σ l fuel m hl hm => ⟨h σ l fuel m hl hm, h σ l fuel m hl hm⟩
  elided := by
    intro k pos hk _
    cases hk
    exact ⟨rfl, servedBy_of_done fun σ l fuel m hl hm => ⟨h σ l fuel m hl hm, rfl⟩⟩
  unlearnt := fun _ => rfl

theorem served_var (pos : Pos) (id : VarId) :
    ExprServed p least mode (.var pos id) s
      { tree := .var pos id
        known := (if mode.constantOnly then none else s.known.get? id).map fun v =>
          { value := v, elidable := true } } s := by
  have hvisible : (if mode.constantOnly then none else s.known.get? id) =
      (mode.visible s.known).get? id := by
    unfold FoldMode.visible
    split <;> rfl
  rw [hvisible]
  cases hv : (mode.visible s.known).get? id with
  | none => exact ⟨rfl, servedBy_self _, nofun, fun _ => rfl⟩
  | some v =>
      apply served_leaf
      intro σ l fuel m _ hm
      simp only [Eval.expr, Eval.readVar, hm id v hv]

theorem ExprServed.unary {operand tree : Expr} {of known : Option Known} {op : UnaryOp}
    (h : ExprServed p least mode operand s { tree := tree, known := of } s₁)
    (hop : forall k', known = some k' -> exists k, of = some k ∧
      op.apply k.value = .ok k'.value ∧ k'.elidable = k.elidable) :
    ExprServed p least mode (.unary pos op operand) s
      { tree := .unary pos op tree, known := known } s₁ where
  program := h.program
  runs := by
    apply h.runs.unary op
    intro w hw
    rcases Option.map_eq_some_iff.mp hw with ⟨k', hk', rfl⟩
    rcases hop k' hk' with ⟨k, rfl, happly, -⟩
    exact ⟨k.value, rfl, happly⟩
  elided := by
    intro k' pos' hk' helidable
    rcases hop k' hk' with ⟨k, hk, happly, hsame⟩
    rcases h.elided k pos' hk (hsame ▸ helidable) with ⟨hknown, hserved⟩
    have hresult : forall w, some k'.value = some w ->
        exists v, some k.value = some v ∧ op.apply v = .ok w := by
      intro w hw
      cases hw
      exact ⟨k.value, rfl, happly⟩
    refine ⟨hknown, (hserved.unary op hresult).congr ?_⟩
    intro σ invoke
    show Eval.operator pos (op.apply k.value) = pure k'.value
    rw [happly]
    rfl
  unlearnt := h.unlearnt

theorem ExprServed.binary_left {left right tree : Expr} {op : BinaryOp}
    (h : ExprServed p least mode left s { tree := tree, known := none } s₁) :
    ExprServed p least mode (.binary pos op left right) s
      { tree := .binary pos op tree right, known := none } s₁ where
  program := h.program
  runs := h.runs.binary_left op right
  elided := nofun
  unlearnt := fun hcall => h.unlearnt (Bool.or_eq_false_iff.mp hcall).1

theorem ExprServed.binary {left right lTree rTree : Expr} {lk : Known} {of known : Option Known}
    {op : BinaryOp}
    (hleft : ExprServed p least mode left s { tree := lTree, known := some lk } s₁)
    (hright : ExprServed p least mode right s₁ { tree := rTree, known := of } s₂)
    (hop : forall k, known = some k -> exists rk, of = some rk ∧
      op.apply lk.value rk.value = .ok k.value ∧ k.elidable = (lk.elidable && rk.elidable)) :
    ExprServed p least mode (.binary pos op left right) s
      { tree := .binary pos op lTree rTree, known := known } s₂ where
  program := hright.program.trans hleft.program
  runs := by
    apply Expr.ServedBy.binary hleft.runs hright.runs op
    intro w hw
    rcases Option.map_eq_some_iff.mp hw with ⟨k, hk, rfl⟩
    rcases hop k hk with ⟨rk, rfl, happly, -⟩
    exact ⟨rk.value, rfl, happly⟩
  elided := by
    intro k pos' hk helidable
    rcases hop k hk with ⟨rk, hrk, happly, hsame⟩
    rw [hsame, Bool.and_eq_true] at helidable
    rcases hleft.elided lk pos' rfl helidable.1 with ⟨hknown, hlserved⟩
    rcases hright.elided rk pos' hrk helidable.2 with ⟨hknown', hrserved⟩
    rw [hknown] at hrserved
    have hresult : forall w, some k.value = some w ->
        exists r, some rk.value = some r ∧ op.apply lk.value r = .ok w := by
      intro w hw
      cases hw
      exact ⟨rk.value, rfl, happly⟩
    refine ⟨hknown'.trans hknown, (hlserved.binary hrserved op hresult).congr ?_⟩
    intro σ invoke
    show Eval.operator pos (op.apply lk.value rk.value) = pure k.value
    rw [happly]
    rfl
  unlearnt := by
    intro hcall
    rcases Bool.or_eq_false_iff.mp hcall with ⟨hlcall, hrcall⟩
    exact (hright.unlearnt hrcall).trans (hleft.unlearnt hlcall)

variable {arg : Expr} {rest : List Expr} {x : FoldedExpr}

theorem SlotServed.first_unknown (hwell : p.WellFormed)
    (h : SlotServed p least mode arg s x s₁)
    (hunknown : (mode.constantOnly && x.known.isNone) = true) :
    ArgsServed p least mode (arg :: rest) s
      { trees := x.tree :: rest, values := none, elidable := true } s₁ where
  program := h.program
  runs := by
    have hrest : Expr.ListServedBy p (mode.quota + 1 + least) (mode.visible s₁.known) rest rest none
        (mode.visible s₁.known) := by
      intro σ l fuel f pos params hl _
      subst hl
      apply endsAlike_self
      intro m values m' hm hrun
      have hshape := keeps_arguments (invariant_shaped hwell.tables fuel) f pos params rest
        fun _ _ => trivial
      rw [FoldMode.visible, if_pos (Bool.and_eq_true_iff.mp hunknown).1]
      refine ⟨knows_empty (hshape.of_done hm.shaped hrun).2, ?_⟩
      intro ws hws
      cases hws
    apply Expr.ListServedBy.cons h.runs h.behind hrest
    intro ws hws
    cases hws
  elided := by
    intro values hvalues
    cases hvalues

theorem SlotServed.cons {xs : FoldedArgs} (h : SlotServed p least mode arg s x s₁)
    (hxs : ArgsServed p least mode rest s₁ xs s₂) :
    ArgsServed p least mode (arg :: rest) s (Fold.FoldedArgs.cons x xs) s₂ where
  program := hxs.program.trans h.program
  runs := by
    apply Expr.ListServedBy.cons h.runs h.behind hxs.runs
    intro ws hws
    unfold Fold.FoldedArgs.cons at hws
    cases hk : x.known with
    | none =>
        rw [hk] at hws
        cases hws
    | some k =>
        cases hvalues : xs.values with
        | none =>
            rw [hk, hvalues] at hws
            cases hws
        | some values =>
            rw [hk, hvalues] at hws
            cases hws
            exact ⟨k.value, values, rfl, rfl, rfl⟩
  elided := by
    intro ws hws helidable
    unfold Fold.FoldedArgs.cons at hws helidable
    cases hk : x.known with
    | none =>
        rw [hk] at hws
        cases hws
    | some k =>
        cases hvalues : xs.values with
        | none =>
            rw [hk, hvalues] at hws
            cases hws
        | some values =>
            rw [hk, hvalues] at hws
            rw [hk, Bool.and_eq_true] at helidable
            cases hws
            rcases h.elided k arg.pos hk helidable.1 with ⟨hknown, hserved⟩
            rcases hxs.elided values hvalues helidable.2 with ⟨hknown', hyields⟩
            rw [hknown] at hyields
            exact ⟨hknown'.trans hknown, hserved.listYields hyields⟩

end Parts

theorem idle_invariant {σ : Type} (p : Program) (invoke : Invoke σ) (inv : Machine σ -> Prop) :
    Invariant p invoke (Mention.Within (.globalsIf false)) inv where
  stores := fun hwithin hstored => nomatch hwithin.stores _ hstored
  starts := fun hwithin => nomatch hwithin.calls _ rfl
  awaits := fun hwithin => nomatch hwithin.stores _ rfl
  calls := fun hwithin => nomatch hwithin.calls _ rfl
  tasks := fun hwithin => nomatch hwithin.calls _ rfl

section Pass

variable {p : Program} (hwell : p.WellFormed) (hhome : p.StoresHome) {mode : FoldMode}
  {least : Nat}

/-!
# Slots
-/

section Slots

variable {e : Expr} {s s₁ s' : FoldState} {x : FoldedExpr} (hfit : p.Fit e.mentions)
  (hvars : s.program.vars = p.vars) (hlearns : LearnsGlobals s s₁)

include hwell hhome hfit

theorem SlotServed.inside (hmode : mode.constantOnly = true)
    (h : ExprServed p least mode e s x s') : SlotServed p least mode e s x s' := by
  refine ⟨h, ?_⟩
  intro σ l fuel m m' v hl hm hrun
  subst hl
  apply hm.expr hwell hrun
  intro id w hw
  rw [FoldMode.visible, if_pos hmode] at hw
  cases hw

include hvars hlearns

theorem SlotServed.forgotten (hmode : mode.constantOnly = false) (hcall : x.tree.hasCall = true)
    (hknown : x.known = none) (h : ExprServed p least mode e s x s₁) :
    SlotServed p least mode e s x
      { s₁ with known := Fold.forgetGlobalsIn s₁.program s₁.known } where
  program := h.program
  runs := by
    rw [hknown]
    intro σ l fuel hl
    apply (h.runs σ l fuel hl).mono fun _ => id
    exact fun _ _ _ _ hw => nomatch hw
  elided := fun k _ hk => nomatch hknown.symm.trans hk
  unlearnt := fun hidle => nomatch hcall.symm.trans hidle
  behind := by
    intro σ l fuel m m' v hl hm hrun
    subst hl
    apply hm.expr hwell hrun
    intro id w hw
    simp only [FoldMode.visible, hmode, Bool.false_eq_true, if_false] at hw ⊢
    rcases Fold.get?_forgetGlobalsIn hw with ⟨hw, hlocal⟩
    have hlocal' : (s.program.variableAt id).owner ≠ none := by
      rw [← h.program]
      exact hlocal
    refine ⟨hlearns.known id w hlocal' hw, ?_⟩
    apply spared_of_within hhome hfit e.within List.not_mem_nil
    intro _
    rw [Program.variableAt, hvars, ← Program.variableAt] at hlocal'
    exact hlocal'

theorem served_settleSlot (h : ExprServed p least mode e s x s₁) :
    Yields (Fold.settleSlot mode x) s₁ (SlotServed p least mode e s) := by
  obtain ⟨tree, known⟩ := x
  cases known with
  | some k =>
      apply (served_replace h).bind
      intro tree' s₂ hserved
      refine ⟨hserved, ?_⟩
      intro σ l fuel m m' v hl hm hrun
      exact (((hserved.runs σ l fuel hl) m hm).2 v m' hrun k.value rfl).2
  | none =>
      apply Ensures.ite
      · intro hcalls
        simp only [Bool.and_eq_true, Bool.not_eq_true'] at hcalls
        exact .forgotten hwell hhome hfit hvars hlearns hcalls.1 hcalls.2 rfl h
      · intro hidle
        cases hmode : mode.constantOnly with
        | true => exact .inside hwell hhome hfit hmode h
        | false =>
            have hcall : tree.hasCall = false := by simpa [hmode] using hidle
            refine ⟨h, ?_⟩
            intro σ l fuel m m' v hl hm hrun
            have hmatches := ((h.runs σ l fuel hl) m hm).1
            rw [hrun] at hmatches
            rw [h.unlearnt hcall]
            have hwithin := tree.within
            rw [hcall] at hwithin
            exact ((keeps_expr (idle_invariant p (l.invoke fuel) _) tree hwithin).of_done hm
              hmatches.eq_done).2

end Slots

/-!
# Expressions
-/

section Expressions

variable {s : FoldState}

include hwell hhome

theorem served_callExpr {pos : Pos} {f : FunId} {args : List Expr} {s s₁ : FoldState}
    {xs : FoldedArgs} (hxs : ArgsServed p least mode args s xs s₁)
    (hstands : p.Stands mode.folding least s₁.program)
    (hmentions : Admitted (Mention.Followed p mode.folding) (Expr.call pos f args).mentions) :
    Yields (Fold.callWith mode pos f xs) s₁ fun call s' =>
      ExprServed p least mode (.call pos f args) s
        { tree := .call pos f xs.trees, known := call.bind Fold.FoldedCall.known? } s' := by
  have hcall := hmentions.head
  rcases hcall.fits with ⟨owners, -, hlength⟩
  apply (Fold.followed_callWith hwell hhome hstands (hcall.closed f rfl) pos xs).mono
  intro call s₂ hfollowed
  refine ⟨hfollowed.program.trans hxs.program, hxs.runs.call hlength hfollowed.tells, ?_, nofun⟩
  intro k pos' hk helidable
  rcases Option.bind_eq_some_iff.mp hk with ⟨c, hc, hvalue⟩
  rcases Option.map_eq_some_iff.mp hvalue with ⟨v, hv, rfl⟩
  rcases hfollowed.elided c hc helidable with
    ⟨hknown, hargs, values, hvalues, haccepted, hyields⟩
  rcases hxs.elided values hvalues hargs with ⟨hknown₁, hargs⟩
  rw [hknown₁, hv] at hyields
  exact ⟨hknown.trans hknown₁, hargs.call hlength haccepted hyields pos'⟩

mutual

theorem served_expr : forall (e : Expr) {s : FoldState},
    p.Stands mode.folding least s.program ->
    Admitted (Mention.Followed p mode.folding) e.mentions ->
    Yields (Fold.expr mode e) s (ExprServed p least mode e s)
  | .literal pos value, s, _, _ => served_leaf fun _ _ _ _ _ _ => rfl
  | .const pos id, s, hstands, _ => by
      apply served_leaf
      intro σ l fuel m _ _
      rw [Eval.expr, ← hstands.shell.constant]
      rfl
  | .var pos id, s, _, _ => served_var pos id
  | .unary pos op operand, s, hstands, hmentions => by
      apply (served_expr operand hstands hmentions).bind
      intro x s₁ hx
      apply (served_settle hx).bind
      intro tree s₂ htree
      cases hknown : x.known with
      | none =>
          rw [hknown] at htree
          exact htree.unary nofun
      | some k =>
          rw [hknown] at htree
          apply (yields_operator pos k.elidable (op.apply k.value) s₂).bind
          rintro known _ ⟨rfl, hop⟩
          exact htree.unary fun k' hk' => ⟨k, rfl, hop k' hk'⟩
  | .binary pos op left right, s, hstands, hmentions => by
      apply (served_expr left hstands hmentions.left).bind
      intro l s₁ hl
      apply (served_settle hl).bind
      intro lTree s₂ hlTree
      cases hlk : l.known with
      | none =>
          rw [hlk] at hlTree
          exact hlTree.binary_left
      | some lk =>
          rw [hlk] at hlTree
          have hstands₂ : p.Stands mode.folding least s₂.program := hlTree.program ▸ hstands
          apply (served_expr right hstands₂ hmentions.right).bind
          intro r s₃ hr
          apply (served_settle hr).bind
          intro rTree s₄ hrTree
          cases hrk : r.known with
          | none =>
              rw [hrk] at hrTree
              exact hlTree.binary hrTree nofun
          | some rk =>
              rw [hrk] at hrTree
              apply (yields_operator pos (lk.elidable && rk.elidable) _ s₄).bind
              rintro known _ ⟨rfl, hop⟩
              exact hlTree.binary hrTree fun k hk => ⟨rk, rfl, hop k hk⟩
  | .call pos f args, s, hstands, hmentions => by
      apply (served_arguments args hstands hmentions.tail).bind
      intro xs s₁ hxs
      have hstands₁ : p.Stands mode.folding least s₁.program := hxs.program ▸ hstands
      apply (served_callExpr hwell hhome hxs hstands₁ hmentions).bind
      intro call s₂ hcall
      exact hcall

theorem served_arguments : forall (args : List Expr) {s : FoldState},
    p.Stands mode.folding least s.program ->
    Admitted (Mention.Followed p mode.folding) (Expr.listMentions args) ->
    Yields (Fold.arguments mode args) s (ArgsServed p least mode args s)
  | [], s, _, _ => by
      refine ⟨rfl, listServedBy_nil, ?_⟩
      intro values hvalues _
      cases hvalues
      exact ⟨rfl, listYields_nil⟩
  | arg :: rest, s, hstands, hmentions => by
      have hfit : p.Fit arg.mentions := fun m hm => (hmentions.left m hm).fits
      apply ((served_expr arg hstands hmentions.left).and (Fold.learns_expr mode arg s)).bind
      rintro e s₁ ⟨he, hlearns⟩
      apply (served_settleSlot hwell hhome hfit hstands.shell.vars hlearns he).bind
      intro x s₂ hx
      apply Ensures.ite
      · intro hunknown
        exact hx.first_unknown hwell hunknown
      · intro _
        have hstands₂ : p.Stands mode.folding least s₂.program := hx.program ▸ hstands
        apply (served_arguments rest hstands₂ hmentions.right).bind
        intro xs s₃ hxs
        exact hx.cons hxs

end

theorem served_slot {e : Expr} (hstands : p.Stands mode.folding least s.program)
    (hmentions : Admitted (Mention.Followed p mode.folding) e.mentions) :
    Yields (Fold.slot mode e) s (SlotServed p least mode e s) := by
  have hfit : p.Fit e.mentions := fun m hm => (hmentions m hm).fits
  apply ((served_expr hwell hhome e hstands hmentions).and (Fold.learns_expr mode e s)).bind
  rintro x s₁ ⟨hx, hlearns⟩
  exact served_settleSlot hwell hhome hfit hstands.shell.vars hlearns hx

end Expressions
end Pass
end Scriptlet
