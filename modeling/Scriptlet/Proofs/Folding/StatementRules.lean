import Scriptlet.Proofs.Folding.ExpressionRuns

/-!
# Statements in the place of others

In a run that begins where the known variables have their values, a statement may be replaced
by what is left of it.  There is a rule for each kind of statement: what may stand in the
place of its parts may stand there in it.
-/

namespace Scriptlet

/-!
# Conditions and values
-/

/-- Where the variables are known, the second condition may be tested in the place of the
first one.  If an answer is given, it is this one. -/
def Expr.DecidedBy (p : Program) (enough : Nat) (known : Valuation) (place : TypedPlace)
    (cond cond' : Expr) (answer : Option Bool) (after : Valuation) : Prop :=
  forall (σ : Type) (l : Loaded σ) (fuel : Nat), l.program = p ->
    EndsAlike (enough ≤ fuel) (Machine.Knows p known)
      (Eval.condition p (l.invoke fuel) place cond) (Eval.condition p (l.invoke fuel) place cond')
      fun b m => m.Knows p after ∧ forall b', answer = some b' -> b = b'

section Slots

variable {p : Program} {least : Nat} {mode : FoldMode} {e : Expr} {s s' : FoldState}
  {x : FoldedExpr}

theorem SlotServed.whole (h : SlotServed p least mode e s x s') {σ : Type} (l : Loaded σ)
    (fuel : Nat) (hl : l.program = p) :
    EndsAlike (mode.quota + 1 + least ≤ fuel) (Machine.Knows p (mode.visible s.known))
      (Eval.expr p (l.invoke fuel) e) (Eval.expr p (l.invoke fuel) x.tree) fun v m =>
        m.Knows p (mode.visible s'.known) ∧ forall k, x.known = some k -> v = k.value := by
  have hboth := (h.runs σ l fuel hl).and fun m v m' hm => h.behind σ l fuel m m' v hl hm
  apply hboth.mono fun _ => id
  intro v m hm
  refine ⟨hm.2, ?_⟩
  intro k hk
  exact (hm.1 k.value (by rw [hk]; rfl)).1

theorem SlotServed.decided (h : SlotServed p least mode e s x s') (hpos : x.tree.pos = e.pos)
    (place : TypedPlace) {answer : Option Bool}
    (hanswer : forall b, answer = some b -> exists k, x.known = some k ∧ k.value = .bool b) :
    e.DecidedBy p (mode.quota + 1 + least) (mode.visible s.known) place x.tree answer
      (mode.visible s'.known) := by
  intro σ l fuel hl
  apply (h.whole l fuel hl).bind
  intro v
  cases v with
  | bool b =>
      apply endsAlike_pure
      intro m hm
      refine ⟨hm.1, ?_⟩
      intro b' hb'
      rcases hanswer b' hb' with ⟨k, hk, hvalue⟩
      have hsame := hm.2 k hk
      rw [hvalue] at hsame
      cases hsame
      rfl
  | int n =>
      show EndsAlike _ _ (Eval.mismatch place .bool .int e.pos)
        (Eval.mismatch place .bool .int x.tree.pos) _
      rw [hpos]
      exact endsAlike_failAt _ _
  | float f =>
      show EndsAlike _ _ (Eval.mismatch place .bool .float e.pos)
        (Eval.mismatch place .bool .float x.tree.pos) _
      rw [hpos]
      exact endsAlike_failAt _ _

end Slots

/-!
# Statements
-/

namespace Stmt

variable (p : Program) (enough : Nat) (known : Valuation)

/-- Where the variables are known, the second statement may be executed in the place of the
first one, if the fuel is enough.  Where another one follows, the variables of the second
valuation are known. -/
def ServedBy (st st' : Stmt) (after : Valuation) : Prop :=
  forall (σ : Type) (l : Loaded σ) (fuel : Nat), l.program = p ->
    EndsAlike (enough ≤ fuel) (Machine.Knows p known) (Eval.stmt p fuel (l.invoke fuel) st)
      (Eval.stmt p fuel (l.invoke fuel) st') fun flow m => flow = .next -> m.Knows p after

def Droppable (st : Stmt) (after : Valuation) : Prop :=
  forall (σ : Type) (l : Loaded σ) (fuel : Nat), l.program = p ->
    EndsAlike (enough ≤ fuel) (Machine.Knows p known) (Eval.stmt p fuel (l.invoke fuel) st)
      (pure .next) fun flow m => flow = .next -> m.Knows p after

def ListServedBy (body body' : List Stmt) (after : Valuation) : Prop :=
  forall (σ : Type) (l : Loaded σ) (fuel : Nat), l.program = p ->
    EndsAlike (enough ≤ fuel) (Machine.Knows p known) (Eval.stmts p fuel (l.invoke fuel) body)
      (Eval.stmts p fuel (l.invoke fuel) body') fun flow m => flow = .next -> m.Knows p after

end Stmt

section Rules

variable {p : Program} {enough enough' : Nat} {known mid after after' : Valuation}
  {st st' : Stmt} {rest rest' body body' : List Stmt} {pos : Pos} {head : BlockHead}

theorem Stmt.ServedBy.weaken (h : st.ServedBy p enough known st' after) (hle : enough ≤ enough') :
    st.ServedBy p enough' known st' after :=
  fun σ l fuel hl => (h σ l fuel hl).weaken (Nat.le_trans hle)

theorem Stmt.Droppable.weaken (h : st.Droppable p enough known after) (hle : enough ≤ enough') :
    st.Droppable p enough' known after :=
  fun σ l fuel hl => (h σ l fuel hl).weaken (Nat.le_trans hle)

theorem Expr.DecidedBy.weaken {place : TypedPlace} {cond cond' : Expr} {answer : Option Bool}
    (h : cond.DecidedBy p enough known place cond' answer after) (hle : enough ≤ enough') :
    cond.DecidedBy p enough' known place cond' answer after :=
  fun σ l fuel hl => (h σ l fuel hl).weaken (Nat.le_trans hle)

theorem Stmt.ListServedBy.forget (h : Stmt.ListServedBy p enough known body body' after)
    (hsub : forall id v, after'.get? id = some v -> after.get? id = some v) :
    Stmt.ListServedBy p enough known body body' after' :=
  fun σ l fuel hl =>
    (h σ l fuel hl).mono (fun _ hm => hm) fun _ _ hm hnext => (hm hnext).forget hsub

theorem listServedBy_done : Stmt.ListServedBy p enough known [] [] known :=
  fun _ _ _ _ => endsAlike_pure fun _ hm _ => hm

theorem Stmt.ServedBy.keep (h : st.ServedBy p enough known st' mid)
    (hrest : Stmt.ListServedBy p enough mid rest rest' after) :
    Stmt.ListServedBy p enough known (st :: rest) (st' :: rest') after := by
  intro σ l fuel hl
  apply (h σ l fuel hl).bind
  intro flow
  cases flow with
  | next => exact (hrest σ l fuel hl).mono (fun m hm => hm rfl) fun _ _ => id
  | returned v => exact endsAlike_pure fun _ _ => nofun

theorem Stmt.Droppable.remove (h : st.Droppable p enough known mid)
    (hrest : Stmt.ListServedBy p enough mid rest rest' after) :
    Stmt.ListServedBy p enough known (st :: rest) rest' after := by
  intro σ l fuel hl
  exact (h σ l fuel hl).skip ((hrest σ l fuel hl).mono (fun m hm => hm rfl) fun _ _ => id)

theorem servedBy_idle (hidle : forall (σ : Type) (fuel : Nat) (invoke : Invoke σ),
    Eval.stmt p fuel invoke st = pure .next)
    (hsub : forall id v, after.get? id = some v -> known.get? id = some v) :
    st.ServedBy p enough known st after ∧ st.Droppable p enough known after := by
  have hdone : st.Droppable p enough known after := by
    intro σ l fuel _
    rw [hidle]
    exact endsAlike_pure fun m hm _ => hm.forget hsub
  refine ⟨?_, hdone⟩
  intro σ l fuel hl
  have hsame := hdone σ l fuel hl
  rw [← hidle] at hsame
  exact hsame

theorem servedBy_block (h : Stmt.ListServedBy p enough known body body' after) :
    (Stmt.block head body).ServedBy p enough known (.block head body') after :=
  h

theorem droppable_block (h : Stmt.ListServedBy p enough known body [] after) :
    (Stmt.block head body).Droppable p enough known after :=
  h

theorem servedBy_ret {e : Expr} {least : Nat} {mode : FoldMode} {s s' : FoldState} {x : FoldedExpr}
    (h : SlotServed p least mode e s x s') :
    (Stmt.ret pos e).ServedBy p (mode.quota + 1 + least) (mode.visible s.known) (.ret pos x.tree)
      after := by
  intro σ l fuel hl
  apply (h.whole l fuel hl).bind
  intro v
  exact endsAlike_pure fun _ _ => nofun

/-!
# Branches and loops
-/

section Conditions

variable {cond cond' : Expr} {answer : Option Bool}

theorem Expr.DecidedBy.ifThen
    (hcond : cond.DecidedBy p enough known .ifCondition cond' answer mid)
    (hyes : answer ≠ some false -> Stmt.ListServedBy p enough mid body body' after)
    (hno : answer ≠ some true -> forall id v, after.get? id = some v -> mid.get? id = some v) :
    (Stmt.ifThen pos cond head body).ServedBy p enough known (.ifThen pos cond' head body')
      after := by
  intro σ l fuel hl
  apply (hcond σ l fuel hl).bind
  intro b
  apply endsAlike_of_pre
  rintro _ ⟨-, hanswer⟩
  cases b with
  | true =>
      have hentered : answer ≠ some false := fun hfalse => nomatch hanswer false hfalse
      exact (hyes hentered σ l fuel hl).mono (fun m hm => hm.1) fun _ _ => id
  | false =>
      have hskipped : answer ≠ some true := fun htrue => nomatch hanswer true htrue
      exact endsAlike_pure fun m hm _ => hm.1.forget (hno hskipped)

theorem Expr.DecidedBy.whileDo (hwell : p.WellFormed)
    (hcond : cond.DecidedBy p enough .empty .whileCondition cond' answer mid)
    (hbody : Stmt.ListServedBy p enough .empty body body' after) {σ : Type} (l : Loaded σ)
    (fuel : Nat) (hl : l.program = p) :
    EndsAlike (enough ≤ fuel) (Machine.Knows p .empty)
      (Eval.stmt p fuel (l.invoke fuel) (.whileDo pos cond head body))
      (Eval.stmt p fuel (l.invoke fuel) (.whileDo pos cond' head body')) fun _ m =>
        m.Knows p .empty := by
  subst hl
  apply endsAlike_loopWithin
  · apply (hcond σ l fuel rfl).mono fun _ => id
    exact fun _ _ hm => hm.1.forget nofun
  · have hshape := keeps_stmts (invariant_shaped hwell.tables fuel) fuel body fun _ _ => trivial
    have hboth := (hbody σ l fuel rfl).and fun m _ m' hm hrun =>
      knows_empty (hshape.of_done hm.shaped hrun).2
    exact hboth.mono (fun _ => id) fun _ _ => And.right

end Conditions

/-!
# Assignments
-/

def FoldedExpr.assigned (x : FoldedExpr) (id : VarId) (known : Valuation) : Valuation :=
  match x.known with
  | none => known.erase id
  | some k => known.set id k.value

theorem yields_assigned (id : VarId) (x : FoldedExpr) (s : FoldState) :
    Yields (Fold.assign id x) s fun _ s' =>
      s'.program = s.program ∧ s'.known = x.assigned id s.known := by
  unfold Fold.assign FoldedExpr.assigned
  cases x.known with
  | none => exact ⟨rfl, rfl⟩
  | some k =>
      apply Ensures.get_bind
      apply Ensures.ite
      · intro _
        exact ⟨rfl, rfl⟩
      · intro _
        trivial

section Assignments

variable {σ : Type} {mode : FoldMode} {id : VarId} {v : Value} {m m' : Machine σ} {x : FoldedExpr}

theorem writeVar_eq_done (h : Eval.writeVar p id v pos m = .done () m') :
    m.store? p id v = some m' := by
  simp only [Eval.writeVar] at h
  split at h
  · split at h
    · cases h
      assumption
    · cases h
  · cases h

theorem Machine.Knows.assigned (h : m.Knows p (mode.visible known)) (htables : p.Tables)
    (hid : id < p.vars.length) (hx : forall k, x.known = some k -> v = k.value)
    (hstore : m.store? p id v = some m') : m'.Knows p (mode.visible (x.assigned id known)) := by
  unfold FoldMode.visible at h ⊢
  split
  · exact knows_empty (h.shaped.store? hstore)
  · rename_i hmode
    rw [if_neg hmode] at h
    have hset := h.store? htables hid hstore
    unfold FoldedExpr.assigned
    cases hk : x.known with
    | some k =>
        rw [hx k hk] at hset
        exact hset
    | none =>
        apply hset.forget
        intro other w hw
        rw [Valuation.get?_erase] at hw
        rw [Valuation.get?_set]
        split at hw
        · cases hw
        · rename_i hne
          rw [if_neg hne]
          exact hw

theorem SlotServed.store {e : Expr} {least : Nat} {s s' : FoldState}
    (h : SlotServed p least mode e s x s') (htables : p.Tables) (hid : id < p.vars.length)
    (l : Loaded σ) (fuel : Nat) (hl : l.program = p) :
    EndsAlike (mode.quota + 1 + least ≤ fuel) (Machine.Knows p (mode.visible s.known))
      (do
        let v ← Eval.expr p (l.invoke fuel) e
        Eval.writeVar p id v pos
        return Flow.next)
      (do
        let v ← Eval.expr p (l.invoke fuel) x.tree
        Eval.writeVar p id v pos
        return Flow.next) fun _ m => m.Knows p (mode.visible (x.assigned id s'.known)) := by
  apply (h.whole l fuel hl).bind
  intro v
  apply endsAlike_self
  intro m flow m' hm hrun
  rcases Run.bind_eq_done.mp hrun with ⟨_, m₁, hwrite, hdone⟩
  cases hdone
  exact hm.1.assigned htables hid hm.2 (writeVar_eq_done hwrite)

end Assignments

/-!
# Calls and tasks
-/

section Calls

variable {f : FunId} {args args' : List Expr} {results : Option (List Value)}
  {followed : Option FoldedCall}

theorem Expr.ListServedBy.callStmt (h : Expr.ListServedBy p enough known args args' results mid)
    (hlength : (p.function f).params.length = args.length)
    (htells : p.CallTells f results mid after followed) :
    (Stmt.call pos f args).ServedBy p enough known (.call pos f args') after := by
  intro σ l fuel hl
  apply (h σ l fuel f pos _ hl hlength).bind
  intro values
  apply endsAlike_self
  intro m flow m' hm hrun _
  rcases Run.bind_eq_done.mp hrun with ⟨result, _, hinvoke, hdone⟩
  cases hdone
  exact (htells σ l fuel m m' values pos result hl hm.1 hm.2 hinvoke).1

theorem Expr.ListYields.callStmt {values : List Value} {result : Option Value}
    (h : Expr.ListYields p enough known args values)
    (hlength : (p.function f).params.length = args.length)
    (haccepted : Accepted (p.function f).params values)
    (hyields : p.CallYields f values known enough result) :
    (Stmt.call pos f args).Droppable p enough known known := by
  intro σ l fuel hl
  apply (h σ l fuel f pos _ hl hlength haccepted).skip
  apply ((hyields σ l fuel pos hl).mono (fun m hm => hm.2) fun _ _ => id).skip
  exact endsAlike_pure fun m hm _ => hm.2

theorem Expr.ListServedBy.async (hwell : p.WellFormed)
    (h : Expr.ListServedBy p enough known args args' results mid)
    (hlength : (p.function f).params.length = args.length) {target : VarId}
    (hfit : (Mention.start target f args.length).FitsSomewhere p)
    (hsub : forall id v, after.get? id = some v -> mid.get? id = some v ∧ p.Spares id f) :
    (Stmt.async pos target f args).ServedBy p enough known (.async pos target f args') after := by
  intro σ l fuel hl
  subst hl
  have hargs := (h σ l fuel f pos _ rfl hlength).and fun m values m' hm hrun =>
    (keeps_arguments (invariant_shaped hwell.tables fuel) f pos _ args
      fun _ _ => trivial).of_done hm.shaped hrun
  rw [Eval.stmt, Eval.stmt, Eval.startTask, Eval.startTask, bind_assoc, bind_assoc]
  apply hargs.bind
  intro values
  apply endsAlike_self
  rintro m flow m' ⟨⟨hm, -⟩, haccepted, -⟩ hrun _
  rcases Run.bind_eq_done.mp hrun with ⟨_, m₁, hstart, hdone⟩
  cases hdone
  have hkeeps : forall {inv : Machine σ -> Prop} {admits : Mention -> Prop},
      Invariant l.program (l.invoke fuel) admits inv -> admits (.start target f args.length) ->
      KeepsAll inv (Eval.startCall l.program (l.invoke fuel) pos target f values) :=
    fun hinv hadmits => keeps_startCall hinv pos hadmits haccepted
  apply hm.behind hstart (hkeeps (invariant_shaped hwell.tables fuel) trivial)
  intro id v hv
  refine ⟨(hsub id v hv).1, ?_⟩
  intro hid
  apply hkeeps (invariant_read hwell hid fuel (some v))
  exact ⟨hfit, nofun, fun g hg => Option.some.inj hg ▸ (hsub id v hv).2⟩

end Calls
end Rules
end Scriptlet
