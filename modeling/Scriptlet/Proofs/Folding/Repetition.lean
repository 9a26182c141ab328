import Scriptlet.Proofs.Folding.CalledBodies
import Scriptlet.Proofs.Folding.FoldedTrees
import Scriptlet.Proofs.Folding.GivingUp

/-!
# Repeated work

What the pass makes of an expression depends on the values that are known, and on the
functions that are declared before the expression.  Bodies behind it make no difference, so
the same work comes to the same answer again once these are folded.
-/

namespace Scriptlet

/-!
# Programs with the same first functions
-/

namespace Program

/-- The first functions have the same bodies, and whatever is no body is the same. -/
structure SameBelow (n : Nat) (q r : Program) : Prop extends q.SameShell r where
  bodies : forall f, f < n -> r.bodyOf f = q.bodyOf f

theorem SameShell.function_of_body {q r : Program} (h : q.SameShell r) {f : FunId}
    (hbody : r.bodyOf f = q.bodyOf f) : r.function f = q.function f := by
  have hemptied := h.function f
  unfold bodyOf at hbody
  generalize r.function f = g at hemptied hbody
  generalize q.function f = g' at hemptied hbody
  obtain ⟨name, params, result, body, count⟩ := g
  obtain ⟨name', params', result', body', count'⟩ := g'
  cases body with
  | none =>
      cases body' with
      | none => simpa [Function.emptied] using hemptied
      | some block' => simp [Function.emptied] at hemptied
  | some block =>
      cases body' with
      | none => simp [Function.emptied] at hemptied
      | some block' =>
          obtain ⟨head, statements⟩ := block
          obtain ⟨head', statements'⟩ := block'
          cases hbody
          simpa [Function.emptied] using hemptied

namespace SameBelow

variable {n : Nat} {q r r' : Program}

theorem refl (n : Nat) (q : Program) : SameBelow n q q :=
  ⟨.refl q, fun _ _ => rfl⟩

theorem trans (h : SameBelow n q r) (h' : SameBelow n r r') : SameBelow n q r' :=
  ⟨h.toSameShell.trans h'.toSameShell, fun f hf => (h'.bodies f hf).trans (h.bodies f hf)⟩

theorem mono {m : Nat} (h : SameBelow n q r) (hle : m ≤ n) : SameBelow m q r :=
  ⟨h.toSameShell, fun f hf => h.bodies f (Nat.lt_of_lt_of_le hf hle)⟩

section Lookups

variable (h : SameBelow n q r)

include h

theorem entries : q.SameEntries r :=
  ⟨h.constants, h.vars⟩

theorem function {f : FunId} (hf : f < n) : r.function f = q.function f :=
  h.toSameShell.function_of_body (h.bodies f hf)

theorem hasSideEffects {f : FunId} (hf : f < n) : r.hasSideEffects f = q.hasSideEffects f := by
  have hsame : forall {p p' : Program}, p.SameShell p' -> p'.bodyOf f = p.bodyOf f ->
      p.hasSideEffects f = false -> p'.hasSideEffects f = false := by
    intro p p' hshell hbody
    have hedited : Stmt.ListEdited .nothing (p.bodyOf f) (p'.bodyOf f) := by
      rw [hbody]
      exact .refl _ _
    exact (hshell.drops_of_body hedited).1
  have hbody := h.bodies f hf
  cases hq : q.hasSideEffects f with
  | false => exact hsame h.toSameShell hbody hq
  | true =>
      cases hr : r.hasSideEffects f with
      | true => rfl
      | false => exact absurd (hsame h.toSameShell.symm hbody.symm hr) (by rw [hq]; decide)

theorem isGlobal : Fold.isGlobal r = Fold.isGlobal q := by
  funext id
  rw [Fold.isGlobal, h.entries.variableAt, ← Fold.isGlobal]

theorem forgetGlobalsIn : Fold.forgetGlobalsIn r = Fold.forgetGlobalsIn q := by
  funext v
  rw [Fold.forgetGlobalsIn, h.isGlobal, ← Fold.forgetGlobalsIn]

theorem callGlobals (mode : FoldMode) : Fold.callGlobals mode r = Fold.callGlobals mode q := by
  funext v
  rw [Fold.callGlobals, h.isGlobal, ← Fold.callGlobals]

theorem checkArguments (f : Function) (pos : Pos) (params : List Param) (values : List Value) :
    Fold.checkArguments r f pos params values = Fold.checkArguments q f pos params values := by
  induction params generalizing values with
  | nil => cases values <;> rfl
  | cons param rest ih =>
      cases values with
      | nil => rfl
      | cons value values =>
          rw [Fold.checkArguments, ih, h.entries.variableAt, ← Fold.checkArguments]

theorem evalCall (hq : q.CallsBelow n) {f : FunId} (hf : f < n) (quota : Nat)
    (globals : Valuation) (args : List Value) :
    evalCall r quota globals f args = evalCall q quota globals f args :=
  evalCall_congr h.entries (fun _ hreaches => h.function (hq.reaches_lt hf hreaches)) quota
    globals args

end Lookups
end SameBelow
end Program

namespace Fold

section Repeated

variable {α β : Type} {quiet : Prop} {n : Nat} {q : Program}

/-!
# Answers that are given again
-/

/-- Where the given values are known, and the first functions are the same as in the given
program, the computation gives this answer, and these values are known behind it.  A quiet
one counts nothing. -/
def Answers (quiet : Prop) (n : Nat) (q : Program) (x : Fold α) (before : Valuation) (a : α)
    (after : Valuation) : Prop :=
  forall s : FoldState, s.known = before -> q.SameBelow n s.program ->
    exists stats, x s = .ok (a, { s with known := after, stats := stats }) ∧
      (quiet -> stats = s.stats)

theorem answers_pure (a : α) (v : Valuation) : Answers quiet n q (pure a) v a v := by
  rintro s rfl _
  exact ⟨s.stats, rfl, fun _ => rfl⟩

theorem answers_count (f : FoldStats -> FoldStats) (v : Valuation) :
    Answers False n q (count f) v () v := by
  rintro s rfl _
  exact ⟨f s.stats, rfl, False.elim⟩

theorem Answers.bind {x : Fold α} {f : α -> Fold β} {a : α} {b : β} {u v w : Valuation}
    (hx : Answers quiet n q x u a v) (hf : Answers quiet n q (f a) v b w) :
    Answers quiet n q (x >>= f) u b w := by
  rintro s rfl hs
  rcases hx s rfl hs with ⟨stats, hx, hquiet⟩
  rcases hf { s with known := v, stats := stats } rfl hs with ⟨stats', hf, hquiet'⟩
  refine ⟨stats', ?_, fun h => (hquiet' h).trans (hquiet h)⟩
  rw [state_bind_of_ok hx]
  exact hf

theorem Answers.of_quiet {x : Fold α} {a : α} {u v : Valuation} (h : Answers True n q x u a v) :
    Answers quiet n q x u a v := by
  intro s hu hs
  rcases h s hu hs with ⟨stats, hx, hquiet⟩
  exact ⟨stats, hx, fun _ => hquiet trivial⟩

theorem Answers.mono {x : Fold α} {a : α} {u v : Valuation} (h : Answers quiet n q x u a v)
    {k : Nat} {r : Program} (hle : n ≤ k) (hsame : q.SameBelow n r) : Answers quiet k r x u a v :=
  fun s hu hs => h s hu (hsame.trans (hs.mono hle))

theorem Answers.of_ok {x : Fold α} {a b : α} {s s' : FoldState} {v : Valuation}
    (h : Answers quiet n q x s.known a v) (hs : q.SameBelow n s.program)
    (hx : x s = .ok (b, s')) :
    b = a ∧ s'.known = v ∧ s'.program = s.program ∧ (quiet -> s'.stats = s.stats) := by
  rcases h s rfl hs with ⟨stats, hagain, hquiet⟩
  rw [hx] at hagain
  cases hagain
  exact ⟨rfl, rfl, rfl, hquiet⟩

theorem answers_program {f : Program -> Fold α} {a : α} {u v : Valuation}
    (hf : forall r, q.SameBelow n r -> f r = f q) (h : Answers quiet n q (f q) u a v) :
    Answers quiet n q (program >>= f) u a v := by
  intro s hu hs
  have hanswer := h s hu hs
  rw [← hf s.program hs] at hanswer
  exact hanswer

/-!
# Computations that can be repeated
-/

def Repeatable (quiet : Prop) (n : Nat) (q : Program) (x : Fold α) : Prop :=
  forall s : FoldState, q.SameBelow n s.program ->
    Yields x s fun a s' => Answers quiet n q x s.known a s'.known

theorem Repeatable.yields {x : Fold α} (h : Repeatable quiet n q x) {s : FoldState}
    (hs : q.SameBelow n s.program) :
    Yields x s fun a s' => s'.program = s.program ∧ Answers quiet n q x s.known a s'.known := by
  apply (h s hs).remember.mono
  rintro a s' ⟨hx, ha⟩
  exact ⟨(ha.of_ok hs hx).2.2.1, ha⟩

theorem repeatable_pure (a : α) : Repeatable quiet n q (pure a) :=
  fun s _ => answers_pure a s.known

theorem repeatable_fail (cause : FoldCause) (pos : Pos) :
    Repeatable quiet n q (fail cause pos : Fold α) :=
  fun _ _ => trivial

theorem Repeatable.bind {x : Fold α} {f : α -> Fold β} (hx : Repeatable quiet n q x)
    (hf : forall a, Repeatable quiet n q (f a)) : Repeatable quiet n q (x >>= f) := by
  intro s hs
  apply (hx.yields hs).bind
  rintro a s₁ ⟨hprogram, ha⟩
  apply (hf a s₁ (hprogram ▸ hs)).mono
  intro b s₂ hb
  exact ha.bind hb

theorem repeatable_ite {c : Prop} [Decidable c] {x y : Fold α} (hx : Repeatable quiet n q x)
    (hy : Repeatable quiet n q y) : Repeatable quiet n q (if c then x else y) := by
  by_cases hc : c
  · rw [if_pos hc]
    exact hx
  · rw [if_neg hc]
    exact hy

theorem repeatable_of_state {x : Fold α} (y : FoldState -> Fold α)
    (hx : forall s, q.SameBelow n s.program -> x s = y { s with program := q, stats := .none } s)
    (hy : forall s, s.program = q -> Repeatable quiet n q (y s)) : Repeatable quiet n q x := by
  intro s hs
  have hsame := hy { s with program := q, stats := .none } rfl s hs
  have hyields : Yields x s fun a s' =>
      Answers quiet n q (y { s with program := q, stats := .none }) s.known a s'.known := by
    unfold Yields Ensures
    rw [hx s hs]
    exact hsame
  apply hyields.mono
  intro a s' ha t ht hagain
  rcases ha t ht hagain with ⟨stats, hanswer, hquiet⟩
  refine ⟨stats, ?_, hquiet⟩
  rw [hx t hagain, ht]
  exact hanswer

theorem repeatable_get {f : FoldState -> Fold α}
    (hf : forall s, q.SameBelow n s.program -> f s = f { s with program := q, stats := .none })
    (hy : forall s, s.program = q -> Repeatable quiet n q (f s)) :
    Repeatable quiet n q (get >>= f) :=
  repeatable_of_state f (fun s hs => congrFun (hf s hs) s) hy

theorem repeatable_program {f : Program -> Fold α}
    (hf : forall r, q.SameBelow n r -> f r = f q) (hy : Repeatable quiet n q (f q)) :
    Repeatable quiet n q (program >>= f) :=
  repeatable_of_state (fun _ => f q) (fun s hs => congrFun (hf s.program hs) s) fun _ _ => hy

theorem repeatable_change (g : Program -> Valuation -> Valuation)
    (hg : forall r, q.SameBelow n r -> g r = g q) :
    Repeatable quiet n q (modify fun s => { s with known := g s.program s.known }) := by
  intro s hs t ht hagain
  refine ⟨t.stats, ?_, fun _ => rfl⟩
  show Except.ok ((), { t with known := g t.program t.known }) =
    Except.ok ((), { t with known := g s.program s.known, stats := t.stats })
  rw [hg _ hagain, hg _ hs, ht]

theorem repeatable_count (f : FoldStats -> FoldStats) : Repeatable False n q (count f) :=
  fun s _ => answers_count f s.known

/-!
# Repeatable steps
-/

theorem repeatable_learn (id : VarId) (v : Value) : Repeatable quiet n q (learn id v) :=
  repeatable_change (fun _ known => known.set id v) fun _ _ => rfl

theorem repeatable_forget (id : VarId) : Repeatable quiet n q (forget id) :=
  repeatable_change (fun _ known => known.erase id) fun _ _ => rfl

theorem repeatable_forgetGlobals : Repeatable quiet n q forgetGlobals :=
  repeatable_change forgetGlobalsIn fun _ hr => hr.forgetGlobalsIn

theorem repeatable_forgetGlobalsIf (impure : Bool) :
    Repeatable quiet n q (forgetGlobalsIf impure) :=
  repeatable_ite repeatable_forgetGlobals (repeatable_pure ())

theorem repeatable_forgetAssigned (a : Assigned) : Repeatable quiet n q (forgetAssigned a) := by
  apply repeatable_change fun p known =>
    (if a.globals then forgetGlobalsIn p known else known).keep fun id => !a.vars.contains id
  intro r hr
  rw [hr.forgetGlobalsIn]

theorem repeatable_operator (pos : Pos) (elidable : Bool) (result : Except OpError Value) :
    Repeatable quiet n q (operator pos elidable result) := by
  cases result with
  | ok value => exact repeatable_pure _
  | error e => exact repeatable_ite (repeatable_pure _) (repeatable_fail _ _)

theorem repeatable_replace (k : Known) (e : Expr) : Repeatable False n q (replace k e) := by
  apply repeatable_ite
  · exact repeatable_pure e
  · cases e <;> exact (repeatable_count _).bind fun _ => repeatable_pure _

theorem repeatable_settle (x : FoldedExpr) : Repeatable False n q (settle x) := by
  unfold settle
  cases x.known with
  | none => exact repeatable_pure _
  | some k => exact repeatable_replace k x.tree

theorem repeatable_settleSlot (mode : FoldMode) (x : FoldedExpr) :
    Repeatable False n q (settleSlot mode x) := by
  unfold settleSlot
  cases x.known with
  | none =>
      apply repeatable_ite
      · exact repeatable_forgetGlobals.bind fun _ => repeatable_pure x
      · exact repeatable_pure x
  | some k => exact (repeatable_replace k x.tree).bind fun _ => repeatable_pure _

theorem repeatable_checkArguments (p : Program) (f : Function) (pos : Pos) :
    forall (params : List Param) (values : List Value),
      Repeatable quiet n q (checkArguments p f pos params values)
  | _ :: params, _ :: values =>
      repeatable_ite (repeatable_checkArguments p f pos params values) (repeatable_fail _ _)
  | [], _ => repeatable_pure ()
  | _ :: _, [] => repeatable_pure ()

theorem repeatable_assign (id : VarId) (x : FoldedExpr) :
    Repeatable quiet n q (assign id x) := by
  unfold assign
  cases x.known with
  | none => exact repeatable_forget id
  | some k =>
      apply repeatable_program
      · intro r hr
        simp only [hr.entries.variableAt]
      · exact repeatable_ite (repeatable_learn id k.value) (repeatable_fail _ _)

theorem repeatable_checkReturn (mode : FoldMode) (x : FoldedExpr) :
    Repeatable quiet n q (checkReturn mode x) := by
  unfold checkReturn
  cases x.known with
  | none => exact repeatable_pure ()
  | some k =>
      cases mode.folding with
      | nil => exact repeatable_pure ()
      | cons f rest =>
          apply repeatable_program
          · intro r hr
            simp only [hr.result, hr.name]
          · exact repeatable_ite (repeatable_fail _ _) (repeatable_pure ())

section Calls

variable {mode : FoldMode} (hq : q.CallsBelow n) {f : FunId} (hf : f < n)

include hq hf

theorem repeatable_runCall (pos : Pos) (values : List Value) (elidable impure : Bool) :
    Repeatable quiet n q (runCall mode pos f values elidable impure) := by
  apply repeatable_get
  · intro s hs
    simp only [hs.function hf, hs.checkArguments, hs.callGlobals, hs.evalCall hq hf]
  · intro s hs
    apply (repeatable_checkArguments _ _ pos _ values).bind
    intro _
    cases evalCall s.program mode.quota (callGlobals mode s.program s.known) f values with
    | none => exact (repeatable_forgetGlobalsIf impure).bind fun _ => repeatable_pure none
    | some answer =>
        apply repeatable_ite
        · apply Repeatable.bind (repeatable_change (fun _ known => known.override answer.2)
            fun _ _ => rfl)
          exact fun _ => repeatable_pure _
        · exact repeatable_pure _

theorem repeatable_callWith (pos : Pos) (xs : FoldedArgs) :
    Repeatable quiet n q (callWith mode pos f xs) := by
  apply repeatable_program
  · intro r hr
    simp only [hr.function hf, hr.hasSideEffects hf]
  · apply repeatable_ite
    · exact repeatable_pure none
    · cases xs.values with
      | none => exact (repeatable_forgetGlobalsIf _).bind fun _ => repeatable_pure none
      | some values =>
          apply repeatable_ite
          · exact (repeatable_forgetGlobalsIf _).bind fun _ => repeatable_pure none
          · exact repeatable_runCall hq hf pos values xs.elidable _

end Calls
end Repeated
end Fold
end Scriptlet
