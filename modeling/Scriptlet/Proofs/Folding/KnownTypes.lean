import Scriptlet.Proofs.Folding.CompileTimeInvariants
import Scriptlet.Proofs.Folding.Forgetting
import Scriptlet.Proofs.Program.Types

/-!
# Known values have their types

What the pass knows of a variable may be another value than the one of the run, but it has
the type that the variable is declared with.  So what is known of an expression has the type
of the expression, and a check of the pass fails only where the types do not fit.
-/

namespace Scriptlet

/-!
# States of the pass
-/

/-- The declarations are the same, whatever has become of the bodies. -/
structure Program.SameTables (p q : Program) : Prop where
  constants : q.constants = p.constants
  vars : q.vars = p.vars
  params : forall f, (q.function f).params = (p.function f).params
  result : forall f, (q.function f).result = (p.function f).result

theorem Program.SameTables.refl (p : Program) : p.SameTables p :=
  ⟨rfl, rfl, fun _ => rfl, fun _ => rfl⟩

theorem Program.SameTables.variableAt {p q : Program} (h : p.SameTables q) (id : VarId) :
    q.variableAt id = p.variableAt id := by
  rw [Program.variableAt, h.vars]
  rfl

theorem Program.SameTables.constant {p q : Program} (h : p.SameTables q) (id : ConstId) :
    q.constant id = p.constant id := by
  rw [Program.constant, h.constants]
  rfl

def Valuation.Typed (p : Program) (v : Valuation) : Prop :=
  forall id w, v.get? id = some w -> w.type = (p.variableAt id).type

theorem Program.SameTables.typed_iff {p q : Program} (h : p.SameTables q) (v : Valuation) :
    v.Typed q <-> v.Typed p := by
  simp only [Valuation.Typed, h.variableAt]

theorem Valuation.Typed.override {p : Program} {v w : Valuation} (hv : v.Typed p)
    (hw : w.Typed p) : (v.override w).Typed p := by
  intro id value hvalue
  simp only [Valuation.get?, Valuation.override, List.lookup_append] at hvalue
  cases hfound : w.entries.lookup id with
  | some other =>
      rw [hfound] at hvalue
      cases hvalue
      exact hw id value hfound
  | none =>
      rw [hfound] at hvalue
      exact hv id value hvalue

/-- The tables are those of the program, and what is known has the types in them. -/
structure FoldState.Typed (p : Program) (s : FoldState) : Prop where
  tables : p.SameTables s.program
  known : s.known.Typed p

theorem FoldState.Typed.forget {p : Program} {s s' : FoldState} (hs : s.Typed p)
    (h : Forgets s s') : s'.Typed p where
  tables := h.program ▸ hs.tables
  known := fun id v hv => hs.known id v (h.known id v hv)

/-!
# Calls at compile time
-/

theorem typed_evalCall {p : Program} {quota : Nat} {globals globals' : Valuation}
    (h : globals.Typed p) {f : FunId} {values : List Value} {value : Option Value}
    (hcall : evalCall p quota globals f values = some (value, globals')) : globals'.Typed p :=
  globals_evalCall (fun _ _ _ htype => htype.symm) h hcall

theorem type_of_evalCall {p : Program} {quota : Nat} {globals globals' : Valuation} {f : FunId}
    {values : List Value} {v : Value}
    (hcall : evalCall p quota globals f values = some (some v, globals')) :
    v.type = (p.function f).result := by
  rcases Option.map_eq_some_iff.mp hcall with ⟨⟨_, c⟩, hinvoke, hpair⟩
  cases hpair
  cases quota with
  | zero => cases hinvoke
  | succ depth =>
      rw [ConstEval.invokeWithin] at hinvoke
      rcases ConstEval.bind_eq_some.mp hinvoke with ⟨_, c₁, _, hbody⟩
      cases hblock : (p.function f).body with
      | none =>
          simp only [hblock] at hbody
          cases hbody
      | some block =>
          simp only [hblock] at hbody
          rcases ConstEval.bind_eq_some.mp hbody with ⟨flow, c₂, _, hyielded⟩
          rcases Option.map_eq_some_iff.mp hyielded with ⟨result, hresult, hpair⟩
          cases hpair
          cases flow with
          | next =>
              simp only [ConstEval.yielded?] at hresult
              split at hresult <;> cases hresult
          | returned w =>
              simp only [ConstEval.yielded?] at hresult
              split at hresult
              · rename_i htype
                cases hresult
                exact htype
              · cases hresult

namespace Fold

/-!
# Checks
-/

section Checks

variable {p : Program} {mode : FoldMode} {s : FoldState}

def KnownType (p : Program) (e : Expr) (known : Option Known) : Prop :=
  forall k, known = some k -> e.type? p = some k.value.type

def KnownTypes (p : Program) (args : List Expr) (values : Option (List Value)) : Prop :=
  forall known, values = some known ->
    List.Forall₂ (fun arg v => arg.type? p = some v.type) args known

theorem knownType_none (p : Program) (e : Expr) : KnownType p e none :=
  fun _ hk => nomatch hk

theorem knownTypes_none (p : Program) (args : List Expr) : KnownTypes p args none :=
  fun _ hk => nomatch hk

theorem knownTypes_cons {arg : Expr} {rest : List Expr} {x : FoldedExpr} {xs : FoldedArgs}
    (hx : KnownType p arg x.known) (hxs : KnownTypes p rest xs.values) :
    KnownTypes p (arg :: rest) (FoldedArgs.cons x xs).values := by
  intro known hknown
  unfold FoldedArgs.cons at hknown
  cases hk : x.known with
  | none =>
      rw [hk] at hknown
      cases hknown
  | some k =>
      cases hvalues : xs.values with
      | none =>
          rw [hk, hvalues] at hknown
          cases hknown
      | some values =>
          rw [hk, hvalues] at hknown
          cases hknown
          exact .cons (hx k hk) (hxs values hvalues)

theorem checks_operator (pos : Pos) (elidable : Bool) {t : Option ValueType}
    {result : Except OpError Value} (h : FollowsType t result) (s : FoldState) :
    Ensures (fun _ => t = none) (operator pos elidable result) s fun known s' =>
      s' = s ∧ forall k, known = some k -> t = some k.value.type := by
  unfold operator
  cases result with
  | ok v =>
      refine ⟨rfl, ?_⟩
      intro k hk
      cases hk
      exact h
  | error e =>
      apply Ensures.ite
      · intro _
        exact ⟨rfl, fun k hk => nomatch hk⟩
      · intro hraised
        exact h.resolve_left hraised

theorem checks_checkArguments (q : Program) (f : Function) (pos : Pos) (s : FoldState)
    {args : List Expr} {values : List Value}
    (h : List.Forall₂ (fun arg v => arg.type? p = some v.type) args values)
    (params : List Param) :
    Ensures (fun _ => Expr.argumentsFit p params args = false)
      (checkArguments q f pos params values) s fun _ s' =>
        s' = s ∧ Expr.argumentsFit p params args = true := by
  induction h generalizing params with
  | nil => cases params <;> exact ⟨rfl, rfl⟩
  | @cons arg v args values harg _ ih =>
      cases params with
      | nil => exact ⟨rfl, rfl⟩
      | cons param params =>
          rw [Expr.argumentsFit_cons harg]
          apply Ensures.ite
          · intro haccepts
            rw [haccepts]
            exact ih params
          · intro hrefuses
            simp only [Bool.not_eq_true] at hrefuses
            show (param.type.accepts v.type && _) = false
            rw [hrefuses]
            rfl

structure CallTyped (p : Program) (f : FunId) (args : List Expr) (s : FoldState)
    (call : Option FoldedCall) (s' : FoldState) : Prop where
  program : s'.program = s.program
  state : s'.Typed p
  type : forall c v, call = some c -> c.value = some v ->
    Expr.argumentsFit p (p.function f).params args = true ∧ v.type = (p.function f).result

theorem callTyped_none {f : FunId} {args : List Expr} {s' : FoldState} (hs : s.Typed p)
    (h : Forgets s s') : CallTyped p f args s none s' :=
  ⟨h.program, hs.forget h, fun _ _ hc => nomatch hc⟩

theorem typed_callGlobals (mode : FoldMode) (q : Program) {known : Valuation}
    (h : known.Typed p) : (callGlobals mode q known).Typed p := by
  intro id v hv
  unfold callGlobals at hv
  split at hv
  · cases hv
  · simp only [Valuation.get?_keep] at hv
    split at hv
    · exact h id v hv
    · cases hv

theorem checks_runCall (hs : s.Typed p) (pos : Pos) (f : FunId) {args : List Expr}
    {values : List Value}
    (h : List.Forall₂ (fun arg v => arg.type? p = some v.type) args values)
    (elidable impure : Bool) :
    Ensures (fun _ => Expr.argumentsFit p (p.function f).params args = false)
      (runCall mode pos f values elidable impure) s (CallTyped p f args s) := by
  have hcheck : Ensures (fun _ => Expr.argumentsFit p (p.function f).params args = false)
      (checkArguments s.program (s.program.function f) pos (s.program.function f).params values) s
      fun _ s' => s' = s ∧ Expr.argumentsFit p (p.function f).params args = true := by
    rw [hs.tables.params]
    exact checks_checkArguments _ _ pos s h _
  apply Ensures.get_bind
  apply hcheck.bind
  intro _ s₁ hchecked
  rcases hchecked with ⟨hsame, hfit⟩
  cases hsame
  cases hcall : evalCall s.program mode.quota (callGlobals mode s.program s.known) f values with
  | none =>
      apply (forgets_forgetGlobalsIf impure s).bind
      intro _ s₂ hforgets
      exact callTyped_none hs hforgets
  | some answer =>
      rcases answer with ⟨value, globals⟩
      have htyped : forall v, value = some v -> v.type = (p.function f).result := by
        intro v hv
        rw [hv] at hcall
        rw [type_of_evalCall hcall, hs.tables.result]
      have hstart := typed_callGlobals mode s.program hs.known
      have hend := typed_evalCall ((hs.tables.typed_iff _).mpr hstart) hcall
      have hglobals := (hs.tables.typed_iff globals).mp hend
      have hcalled : forall c v, some ({ value := value, elidable := !impure && elidable } :
          FoldedCall) = some c -> c.value = some v ->
          Expr.argumentsFit p (p.function f).params args = true ∧
            v.type = (p.function f).result := by
        intro c v hc hv
        cases hc
        exact ⟨hfit, htyped v hv⟩
      cases himpure : impure with
      | true =>
          rw [himpure] at hcalled
          exact ⟨rfl, ⟨hs.tables, hs.known.override hglobals⟩, hcalled⟩
      | false =>
          rw [himpure] at hcalled
          exact ⟨rfl, hs, hcalled⟩

theorem checks_callWith (mode : FoldMode) (hs : s.Typed p) (pos : Pos) (f : FunId) {args : List Expr}
    {xs : FoldedArgs} (h : KnownTypes p args xs.values) :
    Ensures (fun _ => Expr.argumentsFit p (p.function f).params args = false)
      (callWith mode pos f xs) s (CallTyped p f args s) := by
  have hforget : forall impure : Bool,
      Ensures (fun _ => Expr.argumentsFit p (p.function f).params args = false) (do
        forgetGlobalsIf impure
        return none) s (CallTyped p f args s) := by
    intro impure
    apply (forgets_forgetGlobalsIf impure s).bind
    intro _ s₁ hforgets
    exact callTyped_none hs hforgets
  apply Ensures.get_bind
  apply Ensures.ite
  · intro _
    exact callTyped_none hs (.refl s)
  · intro _
    cases hvalues : xs.values with
    | none => exact hforget _
    | some values =>
        apply Ensures.ite
        · intro _
          exact hforget _
        · intro _
          exact checks_runCall hs pos f (h values hvalues) _ _

theorem checks_assign (hs : s.Typed p) (id : VarId) {e : Expr} {x : FoldedExpr}
    (hx : KnownType p e x.known) :
    Ensures (fun _ => e.type? p ≠ some (p.variableAt id).type) (assign id x) s fun _ s' =>
      s'.program = s.program ∧ s'.Typed p := by
  unfold assign
  cases hknown : x.known with
  | none =>
      apply (forgets_forget id s).mono
      intro _ s' hforgets
      exact ⟨hforgets.program, hs.forget hforgets⟩
  | some k =>
      have htype := hx k hknown
      apply Ensures.get_bind
      simp only [hs.tables.variableAt]
      apply Ensures.ite
      · intro hsame
        refine ⟨rfl, hs.tables, ?_⟩
        intro other v hv
        simp only [Valuation.get?_set] at hv
        split at hv
        · rename_i heq
          cases hv
          rw [heq]
          exact hsame.symm
        · exact hs.known other v hv
      · intro hother hsame
        rw [htype] at hsame
        exact hother (Option.some.inj hsame).symm

theorem checks_checkReturn (mode : FoldMode) (hs : s.Typed p) {e : Expr} {x : FoldedExpr}
    (hx : KnownType p e x.known) :
    Ensures (fun _ => exists f, mode.folding.head? = some f ∧
        e.type? p ≠ some (p.function f).result)
      (checkReturn mode x) s fun _ s' => s' = s := by
  unfold checkReturn
  cases hknown : x.known with
  | none => exact rfl
  | some k =>
      have htype := hx k hknown
      cases hfolding : mode.folding with
      | nil => exact rfl
      | cons f rest =>
          apply Ensures.get_bind
          simp only [hs.tables.result]
          apply Ensures.ite
          · intro hother
            refine ⟨f, rfl, ?_⟩
            intro hsame
            rw [htype] at hsame
            exact hother (Option.some.inj hsame).symm
          · intro _
            exact rfl

end Checks
end Fold
end Scriptlet
