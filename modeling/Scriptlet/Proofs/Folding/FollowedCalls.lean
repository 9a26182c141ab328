import Scriptlet.Proofs.Evaluation.EffectFreeCalls
import Scriptlet.Proofs.Folding.KnownVariables
import Scriptlet.Proofs.Folding.LocalValues
import Scriptlet.Proofs.Folding.ReplacedBodies

/-!
# Calls that the pass follows

While bodies are folded the table holds some folded bodies, some original ones, and empty
ones in the place of those that are worked on.  A call that comes by none of the last runs
in the original program as in the table.  So what the pass finds by running it at compile
time is what the call does in the runs of the original program.
-/

namespace Scriptlet

def Program.Avoids (p : Program) (others : List FunId) (f : FunId) : Prop :=
  forall g, g ∈ others -> ¬p.Reaches f g

/-- The table of a state of the pass while some functions are being folded: apart from these,
its bodies may stand in the place of the original ones. -/
structure Program.Stands (p : Program) (folding : List FunId) (least : Nat) (q : Program) :
    Prop extends p.Rebuilds q (p.Avoids folding) least where
  sound : q.Sound
  fit : forall f, q.Fit (q.mentionsOf f)
  skips : q.SkipsNative

theorem Program.SameShell.read {σ : Type} {p q : Program} (h : p.SameShell q) (m : Machine σ) :
    m.read q = m.read p := by
  funext id
  simp only [Machine.read, h.variableAt]

section Stands

variable {σ : Type} {l : Loaded σ} {folding : List FunId} {q : Program} {least : Nat}
  (h : l.program.Stands folding least q) (htables : l.program.Tables) {f : FunId}
  (havoids : l.program.Avoids folding f) {fuel : Nat} {values : List Value} {pos : Pos}
  {m m' : Machine σ} (hm : m.Shaped l.program)

include h htables havoids hm

theorem Program.Stands.done {result : Option Value}
    (hrun : l.invoke fuel f values pos m = .done result m') :
    Loaded.invoke { program := q, natives := l.natives } fuel f values pos m = .done result m' := by
  let l' : Loaded σ := { program := q, natives := l.natives }
  have hrebuilds : l.program.Rebuilds l'.program (l.program.Avoids folding) least := h.toRebuilds
  have hmatches := hrebuilds.invoke htables rfl fuel f values pos havoids m hm
  rw [hrun] at hmatches
  exact hmatches.eq_done

theorem Program.Stands.unchanged (hpure : q.hasSideEffects f = false) {result : Option Value}
    (hrun : l.invoke fuel f values pos m = .done result m') : m' = m := by
  let l' : Loaded σ := { program := q, natives := l.natives }
  have hprogram : l'.program = q := rfl
  have halike : forall id, q.ReadsOutside f id -> m.read q id = m.read q id := fun _ _ => rfl
  have hmatches := matches_effectFree hprogram hprogram (h.sound.own f) hpure halike fuel values
    pos
  rw [h.done htables havoids hm hrun] at hmatches
  cases hmatches with
  | done hsame => exact hsame.1

theorem Program.Stands.yields (hpure : q.hasSideEffects f = false) {mode : FoldMode}
    {known globals : Valuation} {result : Option Value}
    (hcall : evalCall q mode.quota (Fold.callGlobals mode q known) f values =
      some (result, globals)) (hknown : m.Holds l.program (mode.visible known)) :
    (l.invoke fuel f values pos m).Matches Eq Eq (¬mode.quota + 1 + least ≤ fuel)
      (.done result m) := by
  let l' : Loaded σ := { program := q, natives := l.natives }
  have hholds : m.Holds q (mode.visible known) := by
    rw [Machine.Holds, h.shell.read]
    exact hknown
  have hresult : forall n, mode.quota < n -> l'.invoke n f values pos m = .done result m :=
    fun n hn => callHasResult_of_evalCall h.sound hpure hcall σ l' n m pos rfl hn hholds
  have hrebuilds : l.program.Rebuilds l'.program (l.program.Avoids folding) least := h.toRebuilds
  have hthere : (l.invoke fuel f values pos m).Matches Eq Eq True (.done result m) := by
    have hsame := hrebuilds.invoke htables rfl fuel f values pos havoids m hm
    have hlonger := l'.lengthens_invoke (Nat.le_max_left fuel (mode.quota + 1)) f values pos m m rfl
    rw [hresult _ (Nat.le_max_right fuel (mode.quota + 1))] at hlonger
    exact hsame.trans hlonger
  by_cases henough : mode.quota + 1 + least ≤ fuel
  · have hback := hrebuilds.invoke_back htables rfl (mode.quota + 1) f values pos havoids m hm
    rw [hresult _ (Nat.lt_succ_self _)] at hback
    have hlonger := l.lengthens_invoke henough f values pos m m rfl
    rw [hback.eq_done] at hlonger
    rw [hlonger.eq_done]
    exact .refl _
  · exact hthere.loosen fun _ => henough

theorem Program.Stands.leaves {globals globals' : Valuation} {quota : Nat}
    {result result' : Option Value}
    (hcall : evalCall q quota globals f values = some (result, globals'))
    (hknown : KnownGlobals l.program globals m)
    (hrun : l.invoke fuel f values pos m = .done result' m') :
    result' = result ∧ KnownGlobals l.program globals' m' := by
  let l' : Loaded σ := { program := q, natives := l.natives }
  have hsame : forall (known : Valuation) (m : Machine σ),
      KnownGlobals q known m <-> KnownGlobals l.program known m := by
    intro known m
    simp only [KnownGlobals, h.shell.variableAt, h.shell.vars]
  have hlength : m.globals.length = q.globalCount := h.shell.globalCount ▸ hm.globals
  have hends := known_of_evalCall (l := l') (h.shell.tables htables) h.fit h.skips hlength
    ((hsame globals m).mpr hknown) hcall (h.done htables havoids hm hrun)
  exact ⟨hends.1, (hsame globals' m').mp hends.2⟩

end Stands

/-!
# Following a call
-/

/-- Behind a call of the function that ends well the second variables are known, if the first
were before it, and the call has yielded what is known of it.  Where its arguments are known,
they are the ones it was given. -/
def Program.CallTells (p : Program) (f : FunId) (args : Option (List Value))
    (before after : Valuation) (call : Option FoldedCall) : Prop :=
  forall (σ : Type) (l : Loaded σ) (fuel : Nat) (m m' : Machine σ) (values : List Value) (pos : Pos)
    (result : Option Value), l.program = p -> m.Knows p before ->
    (forall vs, args = some vs -> values = vs) ->
    l.invoke fuel f values pos m = .done result m' ->
    m'.Knows p after ∧ forall c, call = some c -> result = c.value

def Program.CallYields (p : Program) (f : FunId) (values : List Value) (known : Valuation)
    (least : Nat) (result : Option Value) : Prop :=
  forall (σ : Type) (l : Loaded σ) (fuel : Nat) (pos : Pos), l.program = p ->
    EndsAlike (least ≤ fuel) (Machine.Knows p known) (l.invoke fuel f values pos) (pure result)
      fun r m => r = result ∧ m.Knows p known

structure CallFollowed (p : Program) (least : Nat) (mode : FoldMode) (f : FunId) (xs : FoldedArgs)
    (s : FoldState) (call : Option FoldedCall) (s' : FoldState) : Prop where
  program : s'.program = s.program
  tells : p.CallTells f xs.values (mode.visible s.known) (mode.visible s'.known) call
  elided : forall c, call = some c -> c.elidable = true ->
    s'.known = s.known ∧ xs.elidable = true ∧ exists values, xs.values = some values ∧
      Accepted (p.function f).params values ∧
      p.CallYields f values (mode.visible s.known) (mode.quota + 1 + least) c.value

theorem visible_of_sub {mode : FoldMode} {known known' : Valuation}
    (hsub : forall id v, known'.get? id = some v -> known.get? id = some v) {id : VarId} {v : Value}
    (hv : (mode.visible known').get? id = some v) : (mode.visible known).get? id = some v := by
  unfold FoldMode.visible at hv ⊢
  split
  · rename_i hmode
    rw [if_pos hmode] at hv
    exact hv
  · rename_i hmode
    rw [if_neg hmode] at hv
    exact hsub id v hv

namespace Fold

theorem get?_forgetGlobalsIn {p : Program} {known : Valuation} {id : VarId} {v : Value}
    (hv : (forgetGlobalsIn p known).get? id = some v) :
    known.get? id = some v ∧ (p.variableAt id).owner ≠ none := by
  unfold forgetGlobalsIn at hv
  rw [Valuation.get?_keep] at hv
  split at hv
  · rename_i hlocal
    refine ⟨hv, ?_⟩
    intro howner
    simp [isGlobal, howner] at hlocal
  · cases hv

section Following

variable {p : Program} (hwell : p.WellFormed) (hhome : p.StoresHome) {mode : FoldMode}
  {s : FoldState} {least : Nat} (hstands : p.Stands mode.folding least s.program) {f : FunId}

include hwell hhome

omit hhome in
theorem tells_unfollowed (hshell : p.SameShell s.program)
    (hleft : ((s.program.function f).isNative || mode.constantOnly) = true)
    (args : Option (List Value)) :
    p.CallTells f args (mode.visible s.known) (mode.visible s.known) none := by
  intro σ l fuel m m' values pos result hl hm _ hrun
  subst hl
  refine ⟨hm.call hwell hrun ?_, nofun⟩
  intro id v hv
  refine ⟨hv, ?_⟩
  rcases Bool.or_eq_true_iff.mp hleft with hnative | hmode
  · rw [hshell.isNative] at hnative
    exact Program.spares_native hnative
  · rw [FoldMode.visible, if_pos hmode] at hv
    cases hv

theorem tells_forgotten (hvars : s.program.vars = p.vars) (args : Option (List Value)) :
    p.CallTells f args (mode.visible s.known) (mode.visible (forgetGlobalsIn s.program s.known))
      none := by
  intro σ l fuel m m' values pos result hl hm _ hrun
  subst hl
  refine ⟨hm.call hwell hrun ?_, nofun⟩
  intro id v hv
  have hbefore := visible_of_sub (fun _ _ hw => (get?_forgetGlobalsIn hw).1) hv
  refine ⟨hbefore, hhome.spares ?_ f⟩
  have hlocal : (s.program.variableAt id).owner ≠ none := by
    unfold FoldMode.visible at hv
    split at hv
    · cases hv
    · exact (get?_forgetGlobalsIn hv).2
  rw [Program.variableAt, hvars, ← Program.variableAt] at hlocal
  exact hlocal

include hstands

theorem tells_forgetGlobalsIf {impure : Bool}
    (hpure : impure = false -> p.Avoids mode.folding f ∧ s.program.hasSideEffects f = false)
    (args : Option (List Value)) :
    Yields (forgetGlobalsIf impure) s fun _ s' => s'.program = s.program ∧
      p.CallTells f args (mode.visible s.known) (mode.visible s'.known) none := by
  cases impure with
  | true => exact ⟨rfl, tells_forgotten hwell hhome hstands.shell.vars args⟩
  | false =>
      rcases hpure rfl with ⟨havoids, hidle⟩
      refine ⟨rfl, ?_⟩
      intro σ l fuel m m' values pos result hl hm _ hrun
      subst hl
      rw [hstands.unchanged hwell.tables havoids hm.shaped hidle hrun]
      exact ⟨hm, nofun⟩

theorem tells_override (hmode : mode.constantOnly = false) (havoids : p.Avoids mode.folding f)
    {values : List Value} {value : Option Value} {globals : Valuation}
    (hcall : evalCall s.program mode.quota (callGlobals mode s.program s.known) f values =
      some (value, globals)) (elidable : Bool) :
    p.CallTells f (some values) (mode.visible s.known) (mode.visible (s.known.override globals))
      (some { value := value, elidable := elidable }) := by
  intro σ l fuel m m' given pos result hl hm hgiven hrun
  subst hl
  cases hgiven values rfl
  have hvisible : forall known, mode.visible known = known := fun _ => by
    simp [FoldMode.visible, hmode]
  have hglobals : callGlobals mode s.program s.known = s.known.keep (isGlobal s.program) := by
    simp [callGlobals, hmode]
  rw [hvisible] at hm ⊢
  have howner := fun id => congrArg Variable.owner (hstands.shell.variableAt id)
  have hbefore : KnownGlobals l.program (callGlobals mode s.program s.known) m := by
    intro id v hglobal hv
    rw [hglobals, Valuation.get?_keep] at hv
    split at hv
    · rcases hm.values id v hv with ⟨hid, hread⟩
      rw [Machine.read, hglobal] at hread
      exact ⟨hid, hread⟩
    · cases hv
  rcases hstands.leaves hwell.tables havoids hm.shaped hcall hbefore hrun with ⟨hvalue, hbehind⟩
  have hshaped := ((keepsShaped_invoke hwell.tables fuel f values pos).of_done hm.shaped hrun).2
  refine ⟨⟨hshaped, ?_⟩, fun c hc => by cases hc; exact hvalue⟩
  intro id v hv
  simp only [Valuation.get?, Valuation.override, List.lookup_append] at hv
  cases hfound : globals.get? id with
  | some w =>
      have hglobal : (s.program.variableAt id).owner = none :=
        globals_evalCall (fun _ _ hglobal _ => hglobal)
          (ofGlobals_callGlobals mode s.program s.known) hcall id w hfound
      rw [howner] at hglobal
      rw [Valuation.get?] at hfound
      rw [hfound] at hv
      cases hv
      rcases hbehind id v hglobal hfound with ⟨hid, hvalue⟩
      rw [Machine.read, hglobal]
      exact ⟨hid, hvalue⟩
  | none =>
      rw [Valuation.get?] at hfound
      rw [hfound] at hv
      have hknown : s.known.get? id = some v := hv
      -- A global that was known before the call would be known behind it.
      have hlocal : (l.program.variableAt id).owner ≠ none := by
        intro hglobal
        have hsome : ((callGlobals mode s.program s.known).get? id).isSome = true := by
          rw [hglobals, Valuation.get?_keep, isGlobal, howner, hglobal, hknown]
          rfl
        have hkept := isSome_evalCall hcall hsome
        rw [Valuation.get?, hfound] at hkept
        cases hkept
      rcases hm.values id v hknown with ⟨hid, hread⟩
      have hkeeps := keepsRead_invoke hwell hid fuel (hhome.spares hlocal f) values pos (some v)
      exact ⟨hid, (hkeeps.of_done hread hrun).2⟩

theorem tells_runCall (havoids : p.Avoids mode.folding f) (pos : Pos) {values : List Value}
    {elidable impure : Bool} (hmode : impure = true -> mode.constantOnly = false)
    (hpure : impure = false -> s.program.hasSideEffects f = false) :
    Yields (runCall mode pos f values elidable impure) s fun call s' =>
      s'.program = s.program ∧
      p.CallTells f (some values) (mode.visible s.known) (mode.visible s'.known) call ∧
      forall c, call = some c -> c.elidable = true -> s'.known = s.known ∧ elidable = true ∧
        Accepted (p.function f).params values ∧
        p.CallYields f values (mode.visible s.known) (mode.quota + 1 + least) c.value := by
  apply Ensures.get_bind
  apply (yields_checkArguments s.program (s.program.function f) pos s
    (s.program.function f).params values).bind
  intro _ s₁ hchecked
  cases hchecked.1
  cases hcall : evalCall s.program mode.quota (callGlobals mode s.program s.known) f values with
  | none =>
      apply (tells_forgetGlobalsIf hwell hhome hstands
        (fun himpure => ⟨havoids, hpure himpure⟩) (some values)).bind
      intro _ s₂ hforgot
      exact ⟨hforgot.1, hforgot.2, nofun⟩
  | some answer =>
      cases himpure : impure with
      | true =>
          refine ⟨rfl, tells_override hwell hhome hstands (hmode himpure) havoids hcall _, ?_⟩
          rintro c hc helidable
          cases hc
          cases helidable
      | false =>
          have hyields : p.CallYields f values (mode.visible s.known) (mode.quota + 1 + least)
              answer.1 := by
            intro σ l fuel pos hl m hm
            subst hl
            have hmatches : (l.invoke fuel f values pos m).Matches Eq Eq
                (¬mode.quota + 1 + least ≤ fuel) (.done answer.1 m) :=
              hstands.yields hwell.tables havoids hm.shaped (hpure himpure) hcall hm.holds
            refine ⟨hmatches, ?_⟩
            intro result m' hrun
            rw [hrun] at hmatches
            cases hmatches with
            | done hsame => exact ⟨rfl, hsame ▸ hm⟩
          refine ⟨rfl, ?_, ?_⟩
          · intro σ l fuel m m' given pos result hl hm hgiven hrun
            cases hgiven values rfl
            rcases (hyields σ l fuel pos hl m hm).2 result m' hrun with ⟨hresult, hm'⟩
            exact ⟨hm', fun c hc => by cases hc; exact hresult⟩
          · rintro c hc helidable
            cases hc
            have haccepted := hchecked.2
            rw [hstands.shell.params] at haccepted
            exact ⟨rfl, by simpa using helidable, haccepted, hyields⟩

theorem followed_callWith (hclosed : f ∈ mode.folding ∨ p.Avoids mode.folding f) (pos : Pos)
    (xs : FoldedArgs) :
    Yields (callWith mode pos f xs) s (CallFollowed p least mode f xs s) := by
  have havoids : mode.folding.contains f = false -> p.Avoids mode.folding f := by
    intro hopen
    exact hclosed.resolve_left (by simpa using hopen)
  have hforget : Yields (do
      forgetGlobalsIf (mode.folding.contains f || s.program.hasSideEffects f)
      return none) s (CallFollowed p least mode f xs s) := by
    have hpure : (mode.folding.contains f || s.program.hasSideEffects f) = false ->
        p.Avoids mode.folding f ∧ s.program.hasSideEffects f = false := by
      intro hidle
      rw [Bool.or_eq_false_iff] at hidle
      exact ⟨havoids hidle.1, hidle.2⟩
    apply (tells_forgetGlobalsIf hwell hhome hstands hpure xs.values).bind
    intro _ s₁ hforgot
    exact ⟨hforgot.1, hforgot.2, nofun⟩
  apply Ensures.get_bind
  apply Ensures.ite
  · intro hleft
    refine ⟨rfl, tells_unfollowed hwell hstands.shell ?_ xs.values, nofun⟩
    rcases Bool.or_eq_true_iff.mp hleft with hnative | hunknown
    · exact Bool.or_eq_true_iff.mpr (.inl hnative)
    · exact Bool.or_eq_true_iff.mpr (.inr (Bool.and_eq_true_iff.mp hunknown).1)
  · intro _
    cases hvalues : xs.values with
    | none => exact hforget
    | some values =>
        apply Ensures.ite
        · intro _
          exact hforget
        · intro hfollowed
          rw [Bool.or_eq_true_iff, not_or, Bool.not_eq_true] at hfollowed
          have hopen := hfollowed.1
          rw [hopen, Bool.false_or] at hfollowed ⊢
          apply (tells_runCall hwell hhome hstands (havoids hopen) pos ?_ id).mono
          · rintro call s' ⟨hprogram, htells, helided⟩
            refine ⟨hprogram, hvalues ▸ htells, ?_⟩
            intro c hc helidable
            rcases helided c hc helidable with ⟨hknown, hargs, haccepted, hyields⟩
            exact ⟨hknown, hargs, values, hvalues, haccepted, hyields⟩
          · intro himpure
            simpa [himpure] using hfollowed.2

end Following
end Fold
end Scriptlet
