import Scriptlet.Proofs.Folding.GivingUp
import Scriptlet.Proofs.Folding.OpenBodies
import Scriptlet.Proofs.Folding.StatementRules

/-!
# Runs of folded statements

What the pass leaves of a statement may be executed in its place, wherever the variables have
the values that are known to the pass.  Behind it they have those that the pass then knows.
-/

namespace Scriptlet

/-!
# What is learnt
-/

def Assigned.Learns (p : Program) (a : Assigned) (known known' : Valuation) : Prop :=
  forall id v, known'.get? id = some v -> known.get? id = some v ∨ id ∈ a.vars ∨
    a.globals = true ∧ (p.variableAt id).owner = none

section Learns

variable {p q : Program} {a b : Assigned} {known known' known'' : Valuation} {id : VarId}
  {v : Value}

theorem learns_of_sub (a : Assigned)
    (hsub : forall id v, known'.get? id = some v -> known.get? id = some v) :
    a.Learns p known known' :=
  fun id v hv => .inl (hsub id v hv)

theorem Assigned.Learns.trans (h : a.Learns p known known') (h' : b.Learns p known' known'') :
    (a.union b).Learns p known known'' := by
  intro id v hv
  rcases h' id v hv with hv | hvars | ⟨hglobals, howner⟩
  · rcases h id v hv with hv | hvars | ⟨hglobals, howner⟩
    · exact .inl hv
    · exact .inr (.inl (List.mem_append_left _ hvars))
    · exact .inr (.inr ⟨Bool.or_eq_true_iff.mpr (.inl hglobals), howner⟩)
  · exact .inr (.inl (List.mem_append_right _ hvars))
  · exact .inr (.inr ⟨Bool.or_eq_true_iff.mpr (.inr hglobals), howner⟩)

theorem LearnsGlobals.learns {s s' : FoldState} (h : LearnsGlobals s s')
    (hvars : s.program.vars = p.vars) : (Assigned.globalsIf true).Learns p s.known s'.known := by
  intro id v hv
  cases howner : (p.variableAt id).owner with
  | none => exact .inr (.inr ⟨rfl, rfl⟩)
  | some f =>
      have hlocal : (s.program.variableAt id).owner ≠ none := by
        rw [Program.variableAt, hvars, ← Program.variableAt, howner]
        exact nofun
      exact .inl (h.known id v hlocal hv)

theorem SlotServed.learns {least : Nat} {mode : FoldMode} {e : Expr} {s s' : FoldState}
    {x : FoldedExpr} (h : SlotServed p least mode e s x s') (hlearns : LearnsGlobals s s')
    (hvars : s.program.vars = p.vars) :
    (Assigned.globalsIf x.tree.hasCall).Learns p s.known s'.known := by
  cases hcall : x.tree.hasCall with
  | false => exact learns_of_sub _ fun id v hv => h.unlearnt hcall ▸ hv
  | true => exact hlearns.learns hvars

theorem Assigned.Learns.assigned {calls : Bool}
    (h : (Assigned.globalsIf calls).Learns p known known') (x : FoldedExpr) (id : VarId) :
    ((Assigned.var id).union (.globalsIf calls)).Learns p known (x.assigned id known') := by
  intro other v hv
  by_cases hother : other = id
  · exact .inr (.inl (List.mem_cons.mpr (.inl hother)))
  · have hbefore : known'.get? other = some v := by
      unfold FoldedExpr.assigned at hv
      split at hv
      · rw [Valuation.get?_erase, if_neg hother] at hv
        exact hv
      · rw [Valuation.get?_set, if_neg hother] at hv
        exact hv
    rcases h other v hbefore with hv | hvars | hglobals
    · exact .inl hv
    · cases hvars
    · exact .inr (.inr hglobals)

theorem get?_unassigned
    (h : ((if a.globals then Fold.forgetGlobalsIn q known else known).keep fun id =>
      !a.vars.contains id).get? id = some v) :
    known.get? id = some v ∧ id ∉ a.vars ∧
      (a.globals = true -> (q.variableAt id).owner ≠ none) := by
  rw [Valuation.get?_keep] at h
  split at h
  · rename_i hkept
    have hvars : id ∉ a.vars := by simpa using hkept
    cases hglobals : a.globals with
    | false =>
        rw [hglobals] at h
        exact ⟨h, hvars, nofun⟩
    | true =>
        rw [hglobals] at h
        have hlocal := Fold.get?_forgetGlobalsIn h
        exact ⟨hlocal.1, hvars, fun _ => hlocal.2⟩
  · cases h

theorem yields_forgetAssigned (a : Assigned) (s : FoldState) :
    Yields (Fold.forgetAssigned a) s fun _ s' => s'.program = s.program ∧
      forall id v, s'.known.get? id = some v -> s.known.get? id = some v ∧ id ∉ a.vars ∧
        (a.globals = true -> (s.program.variableAt id).owner ≠ none) :=
  ⟨rfl, fun _ _ => get?_unassigned⟩

theorem get?_knownBehind {cond : Expr} {body : List Stmt}
    (h : (Fold.knownBehind q known cond body).get? id = some v) :
    known.get? id = some v ∧ id ∉ (Assigned.byStmts body).vars ∧
      ((cond.hasCall || (Assigned.byStmts body).globals) = true ->
        (q.variableAt id).owner ≠ none) := by
  unfold Fold.knownBehind at h
  cases hcall : cond.hasCall with
  | false =>
      rw [hcall] at h
      exact get?_unassigned h
  | true =>
      rw [hcall] at h
      rcases Fold.get?_forgetGlobalsIn h with ⟨h, hlocal⟩
      rcases get?_unassigned h with ⟨hknown, hvars, -⟩
      exact ⟨hknown, hvars, fun _ => hlocal⟩

end Learns

theorem Machine.Knows.loop {σ : Type} {l : Loaded σ} {q : Program} {known : Valuation}
    {mode : FoldMode} {m m' : Machine σ} {fuel : Nat} {flow : Flow} {pos : Pos} {cond : Expr}
    {head : BlockHead} {body : List Stmt} (hp : l.program.Predictable)
    (hshell : l.program.SameShell q)
    (hfit : l.program.Fit (Stmt.whileDo pos cond head body).mentions)
    (h : m.Knows l.program (mode.visible known))
    (hrun : Eval.stmt l.program fuel (l.invoke fuel) (.whileDo pos cond head body) m =
      .done flow m') : m'.Knows l.program (mode.visible (Fold.knownBehind q known cond body)) := by
  apply h.stmt hp.wellFormed hrun
  intro id v hv
  refine ⟨visible_of_sub (fun id v hv => (get?_knownBehind hv).1) hv, ?_⟩
  unfold FoldMode.visible at hv
  split at hv
  · cases hv
  · rcases get?_knownBehind hv with ⟨-, hvars, hglobals⟩
    rw [hshell.variableAt] at hglobals
    exact spared_of_within hp.storesHome hfit (Stmt.within _) hvars hglobals

/-!
# What is left
-/

namespace FoldedStmt

def Serves (p : Program) (enough : Nat) (known : Valuation) (st : Stmt) (after : Valuation) :
    FoldedStmt -> Prop
  | keep st' => st.ServedBy p enough known st' after
  | remove => st.Droppable p enough known after
  | giveUp => True

def assigned? : FoldedStmt -> Option Assigned
  | keep st' => some (Assigned.byStmt st')
  | remove => some .nothing
  | giveUp => none

end FoldedStmt

/-- What folding a statement finds out about the runs of the original program. -/
structure StmtServed (p : Program) (mode : FoldMode) (st : Stmt) (s : FoldState) (least : Nat)
    (r : FoldedStmt) (s' : FoldState) : Prop where
  table : p.Open mode.folding least s'.program
  runs : r.Serves p (mode.quota + 1 + least) (mode.visible s.known) st (mode.visible s'.known)
  learns : forall a, r.assigned? = some a -> a.Learns p s.known s'.known

structure ListServed (p : Program) (mode : FoldMode) (body : List Stmt) (s : FoldState)
    (least : Nat) (result : Option (List Stmt)) (s' : FoldState) : Prop where
  table : p.Open mode.folding least s'.program
  runs : forall kept, result = some kept -> Stmt.ListServedBy p (mode.quota + 1 + least)
    (mode.visible s.known) body kept (mode.visible s'.known)
  learns : forall kept, result = some kept ->
    (Assigned.byStmts kept).Learns p s.known s'.known

namespace Fold

section Plain

variable {p : Program} {mode : FoldMode} {s s' : FoldState} {least : Nat} {st st' : Stmt}

theorem served_gaveUp (htable : p.Open mode.folding least s'.program) :
    StmtServed p mode st s least .giveUp s' :=
  ⟨htable, trivial, nofun⟩

theorem served_kept (htable : p.Open mode.folding least s'.program)
    (hruns : st.ServedBy p (mode.quota + 1 + least) (mode.visible s.known) st'
      (mode.visible s'.known))
    (hlearns : (Assigned.byStmt st').Learns p s.known s'.known) :
    StmtServed p mode st s least (.keep st') s' := by
  refine ⟨htable, hruns, ?_⟩
  intro a ha
  cases ha
  exact hlearns

theorem served_idle (htable : p.Open mode.folding least s'.program)
    (hidle : forall (σ : Type) (fuel : Nat) (invoke : Invoke σ),
      Eval.stmt p fuel invoke st = pure .next)
    (hsub : forall id v, s'.known.get? id = some v -> s.known.get? id = some v) :
    StmtServed p mode st s least (.keep st) s' ∧ StmtServed p mode st s least .remove s' := by
  have hboth : st.ServedBy p (mode.quota + 1 + least) (mode.visible s.known) st
      (mode.visible s'.known) ∧ st.Droppable p (mode.quota + 1 + least) (mode.visible s.known)
        (mode.visible s'.known) :=
    servedBy_idle hidle fun id v hv => visible_of_sub hsub hv
  refine ⟨served_kept htable hboth.1 (learns_of_sub _ hsub), htable, hboth.2, ?_⟩
  intro a ha
  cases ha
  exact learns_of_sub _ hsub

end Plain

section Slots

variable {p : Program} (hp : p.Predictable) {mode : FoldMode} {s : FoldState} {least : Nat}
  (htable : p.Open mode.folding least s.program)

include hp htable

theorem yields_slotServed {e : Expr}
    (hmentions : Admitted (Mention.Followed p mode.folding) e.mentions) :
    Yields (slot mode e) s fun x s' => SlotServed p least mode e s x s' ∧ SlotFolded e x ∧
      p.Open mode.folding least s'.program ∧
      (Assigned.globalsIf x.tree.hasCall).Learns p s.known s'.known := by
  have hserved := served_slot hp.wellFormed hp.storesHome (htable.stands hp) hmentions
  apply ((hserved.and (slotFolded_slot e s)).and (learns_slot e s)).mono
  rintro x s' ⟨⟨hx, hfolded⟩, hlearns⟩
  exact ⟨hx, hfolded, hx.program ▸ htable, hx.learns hlearns htable.shell.vars⟩

theorem served_assigned {st : Stmt} (build : Expr -> Stmt) {pos : Pos} {id : VarId} {e : Expr}
    (hid : id < p.vars.length)
    (hmentions : Admitted (Mention.Followed p mode.folding) e.mentions)
    (hst : forall (σ : Type) (fuel : Nat) (invoke : Invoke σ), Eval.stmt p fuel invoke st = do
      let v ← Eval.expr p invoke e
      Eval.writeVar p id v pos
      return .next)
    (hbuild : forall (tree : Expr) (σ : Type) (fuel : Nat) (invoke : Invoke σ),
      Eval.stmt p fuel invoke (build tree) = do
        let v ← Eval.expr p invoke tree
        Eval.writeVar p id v pos
        return .next)
    (hassigned : forall tree, Assigned.byStmt (build tree) =
      (Assigned.var id).union (.globalsIf tree.hasCall)) :
    Yields (do
      let x ← slot mode e
      if givesUp mode x then
        return FoldedStmt.giveUp
      else
        assign id x
        return .keep (build x.tree)) s fun r s' => StmtServed p mode st s least r s' := by
  apply (yields_slotServed hp htable hmentions).bind
  rintro x s₁ ⟨hx, -, htable₁, hlearns⟩
  apply Ensures.ite
  · intro _
    exact served_gaveUp htable₁
  · intro _
    apply (yields_assigned id x s₁).bind
    rintro _ s₂ ⟨hprogram, hknown⟩
    apply served_kept (hprogram ▸ htable₁)
    · intro σ l fuel hl
      rw [hst, hbuild, hknown]
      exact (hx.store hp.wellFormed.tables hid l fuel hl).mono (fun _ hm => hm) fun _ _ hm _ => hm
    · rw [hassigned, hknown]
      exact hlearns.assigned x id

theorem served_ret {pos : Pos} {value : Expr}
    (hmentions : Admitted (Mention.Followed p mode.folding) value.mentions) :
    Yields (do
      let x ← slot mode value
      if givesUp mode x then
        return FoldedStmt.giveUp
      else
        checkReturn mode x
        return .keep (.ret pos x.tree)) s fun r s' =>
      StmtServed p mode (.ret pos value) s least r s' := by
  apply (yields_slotServed hp htable hmentions).bind
  rintro x s₁ ⟨hx, -, htable₁, hlearns⟩
  apply Ensures.ite
  · intro _
    exact served_gaveUp htable₁
  · intro _
    apply (unchanged_checkReturn x s₁).bind
    rintro _ _ rfl
    exact served_kept htable₁ (servedBy_ret hx) hlearns

theorem served_callStmt {pos : Pos} {f : FunId} {args : List Expr}
    (hmentions : Admitted (Mention.Followed p mode.folding) (Stmt.call pos f args).mentions) :
    Yields (callStmt mode pos f args) s fun r s' =>
      StmtServed p mode (.call pos f args) s least r s' := by
  have hcall := hmentions.head
  rcases hcall.fits with ⟨owners, -, hlength⟩
  have hstands := htable.stands hp
  have hargs := served_arguments hp.wellFormed hp.storesHome args hstands hmentions.tail
  apply (hargs.and (learns_arguments mode args s)).bind
  rintro xs s₁ ⟨hxs, hlearns⟩
  have hstands₁ : p.Stands mode.folding least s₁.program := hxs.program ▸ hstands
  have hclosed := hcall.closed f rfl
  have hfollowed := followed_callWith hp.wellFormed hp.storesHome hstands₁ hclosed pos xs
  apply (hfollowed.and (learns_callWith pos f xs s₁)).bind
  rintro call s₂ ⟨hfollowed, hlearns'⟩
  have hprogram := hfollowed.program.trans hxs.program
  have htable₂ : p.Open mode.folding least s₂.program := hprogram ▸ htable
  have hkept : StmtServed p mode (.call pos f args) s least (.keep (.call pos f xs.trees)) s₂ :=
    served_kept htable₂ (hxs.runs.callStmt hlength hfollowed.tells)
      ((hlearns.trans hlearns').learns htable.shell.vars)
  cases call with
  | none =>
      apply Ensures.ite
      · intro _
        exact served_gaveUp htable₂
      · intro _
        exact hkept
  | some c =>
      apply Ensures.ite
      · intro helidable
        rcases hfollowed.elided c rfl helidable with
          ⟨hknown, helided, values, hvalues, haccepted, hyields⟩
        rcases hxs.elided values hvalues helided with ⟨hknown₁, hargs⟩
        rw [hknown₁] at hyields
        have hsame : s₂.known = s.known := hknown.trans hknown₁
        refine ⟨htable₂, ?_, ?_⟩
        · show Stmt.Droppable _ _ _ _ (mode.visible s₂.known)
          rw [hsame]
          exact hargs.callStmt hlength haccepted hyields
        · intro a ha
          cases ha
          exact learns_of_sub _ fun id v hv => hsame ▸ hv
      · intro _
        exact hkept

theorem served_asyncArguments {args : List Expr}
    (hmentions : Admitted (Mention.Followed p mode.folding) (Expr.listMentions args)) :
    Yields (asyncArguments mode args) s fun trees s' =>
      p.Open mode.folding least s'.program ∧
      Expr.ListServedBy p (mode.quota + 1 + least) (mode.visible s.known) args trees none
        (mode.visible s'.known) := by
  induction args generalizing s with
  | nil =>
      refine ⟨htable, ?_⟩
      intro σ l fuel f pos params hl hlength
      exact (listServedBy_nil σ l fuel f pos params hl hlength).mono (fun _ => id)
        fun _ _ hm => ⟨hm.1, nofun⟩
  | cons arg rest ih =>
      apply (yields_slotServed hp htable hmentions.left).bind
      rintro x s₁ ⟨hx, -, htable₁, -⟩
      apply (ih htable₁ hmentions.right).bind
      rintro trees s₂ ⟨htable₂, hrest⟩
      exact ⟨htable₂, .cons hx.runs hx.behind hrest nofun⟩

theorem served_asyncStmt {pos : Pos} {target : VarId} {f : FunId} {args : List Expr}
    (hmentions : Admitted (Mention.Followed p mode.folding)
      (Stmt.async pos target f args).mentions) :
    Yields (asyncStmt mode pos target f args) s fun r s' =>
      StmtServed p mode (.async pos target f args) s least r s' := by
  have hstart := hmentions.head
  rcases hstart.fits with ⟨owners, -, ⟨-, hlength⟩, -⟩
  apply Ensures.ite
  · intro _
    exact served_gaveUp htable
  · intro _
    have hargs := served_asyncArguments hp htable hmentions.tail
    apply (hargs.and (learns_asyncArguments args s)).bind
    rintro trees s₁ ⟨⟨htable₁, hargs⟩, hlearns⟩
    have hkept : forall s₂, Forgets s₁ s₂ ->
        ((s₁.program.function f).isNative = true ∨
          forall id v, s₂.known.get? id = some v -> (p.variableAt id).owner ≠ none) ->
        StmtServed p mode (.async pos target f args) s least (.keep (.async pos target f trees))
          s₂ := by
      intro s₂ hforgets hspared
      apply served_kept (hforgets.program ▸ htable₁)
      · apply hargs.async hp.wellFormed hlength hstart.fits
        intro id v hv
        refine ⟨visible_of_sub hforgets.known hv, ?_⟩
        rcases hspared with hnative | hlocal
        · rw [htable₁.shell.isNative] at hnative
          exact Program.spares_native hnative
        · unfold FoldMode.visible at hv
          split at hv
          · cases hv
          · exact hp.storesHome.spares (hlocal id v hv) f
      · have hall := (hlearns.trans hforgets.learnsGlobals).learns htable.shell.vars
        intro id v hv
        rcases hall id v hv with hbefore | hvars | hglobals
        · exact .inl hbefore
        · cases hvars
        · exact .inr (.inr hglobals)
    apply (forgets_forget target s₁).bind
    intro _ s₂ hforgets
    apply Ensures.get_bind
    apply Ensures.ite
    · intro _
      apply hkept _ (hforgets.trans (forgets_keep s₂ _))
      right
      intro id v hv
      have hlocal := (get?_forgetGlobalsIn hv).2
      rw [hforgets.program, htable₁.shell.variableAt] at hlocal
      exact hlocal
    · intro hnative
      apply hkept s₂ hforgets
      left
      rw [← hforgets.program]
      simpa using hnative

theorem served_awaitStmt {pos : Pos} {target : VarId}
    (hmentions : Admitted (Mention.Followed p mode.folding) (Stmt.await pos target).mentions) :
    Yields (awaitStmt mode pos target) s fun r s' =>
      StmtServed p mode (.await pos target) s least r s' := by
  apply Ensures.ite
  · intro _
    exact served_gaveUp htable
  · intro hmode
    have hsub : forall id v, (forgetGlobalsIn s.program (s.known.erase target)).get? id = some v ->
        s.known.get? id = some v ∧ id ≠ target := by
      intro id v hv
      have hv := (get?_forgetGlobalsIn hv).1
      rw [Valuation.get?_erase] at hv
      split at hv
      · cases hv
      · rename_i hne
        exact ⟨hv, hne⟩
    refine served_kept htable ?_ (learns_of_sub _ fun id v hv => (hsub id v hv).1)
    intro σ l fuel hl
    subst hl
    apply endsAlike_self
    intro m flow m' hm hrun _
    apply hm.stmt hp.wellFormed hrun
    intro id v hv
    simp only [FoldMode.visible, hmode, if_false] at hv ⊢
    rcases hsub id v hv with ⟨hknown, hne⟩
    refine ⟨hknown, ?_⟩
    intro m hm
    refine ⟨(hmentions m hm).fits, ?_, ?_⟩
    · intro hstored
      cases List.mem_singleton.mp hm
      exact hne (Option.some.inj hstored).symm
    · intro g hcallee
      cases List.mem_singleton.mp hm
      cases hcallee

/-!
# Branches and loops
-/

section Conditions

variable {enter : FunId -> Fold Unit} {pos : Pos} {cond : Expr} {head : BlockHead}
  {body : List Stmt}

omit hp htable in
theorem served_branch {c : FoldedExpr} {s₁ s₂ : FoldState} {least' : Nat} {kept : List Stmt}
    (hc : SlotServed p least mode cond s c s₁) (hpos : c.tree.pos = cond.pos)
    (hlearns : (Assigned.globalsIf c.tree.hasCall).Learns p s.known s₁.known)
    (htable : p.Open mode.folding least' s₂.program) (hle : least ≤ least') {answer : Option Bool}
    (hanswer : forall b, answer = some b -> exists k, c.known = some k ∧ k.value = .bool b)
    (hyes : answer ≠ some false -> Stmt.ListServedBy p (mode.quota + 1 + least')
      (mode.visible s₁.known) body kept (mode.visible s₂.known))
    (hno : answer ≠ some true -> forall id v, s₂.known.get? id = some v ->
      s₁.known.get? id = some v)
    (hlearns' : (Assigned.byStmts kept).Learns p s₁.known s₂.known) :
    StmtServed p mode (.ifThen pos cond head body) s least' (.keep (.ifThen pos c.tree head kept))
      s₂ := by
  apply served_kept htable
  · have hdecided := hc.decided hpos .ifCondition hanswer
    apply (hdecided.weaken (Nat.add_le_add_left hle _)).ifThen hyes
    intro hskipped id v hv
    exact visible_of_sub (hno hskipped) hv
  · exact hlearns.trans hlearns'

theorem served_ifThen (hmentions : Admitted (Mention.Followed p mode.folding) cond.mentions)
    (hbody : forall c s₁, slot mode cond s = .ok (c, s₁) -> p.Open mode.folding least s₁.program ->
      Yields (stmts mode enter body) s₁ fun result s' => exists least', least ≤ least' ∧
        ListServed p mode body s₁ least' result s') :
    Yields (stmt mode enter (.ifThen pos cond head body)) s fun r s' => exists least',
      least ≤ least' ∧ StmtServed p mode (.ifThen pos cond head body) s least' r s' := by
  apply (yields_slotServed hp htable hmentions).remember.bind
  rintro c s₁ ⟨hslot, hc, hfolded, htable₁, hlearns⟩
  cases hknown : c.known with
  | none =>
      apply Ensures.ite
      · intro _
        exact ⟨least, Nat.le_refl _, served_gaveUp htable₁⟩
      · intro _
        apply (hbody c s₁ hslot htable₁).bind
        rintro result s₂ ⟨least', hle, hserved⟩
        cases result with
        | none => exact ⟨least', hle, served_gaveUp hserved.table⟩
        | some kept =>
            have hlearns' := hserved.learns kept rfl
            have hanswer : forall b, none = some b -> exists k, c.known = some k ∧
                k.value = .bool b := nofun
            apply (yields_forgetAssigned (Assigned.byStmts kept) s₂).bind
            rintro _ s₃ ⟨hprogram, hunassigned⟩
            refine ⟨least', hle, served_branch hc hfolded.simplifies.pos hlearns
              (hprogram ▸ hserved.table) hle hanswer ?_ ?_ ?_⟩
            · intro _
              apply (hserved.runs kept rfl).forget
              intro id v hv
              exact visible_of_sub (fun id v hv => (hunassigned id v hv).1) hv
            · intro _ id v hv
              rcases hunassigned id v hv with ⟨hv, hvars, hglobals⟩
              rcases hlearns' id v hv with hbefore | hassigned | ⟨hcalls, howner⟩
              · exact hbefore
              · exact absurd hassigned hvars
              · rw [hserved.table.shell.variableAt] at hglobals
                exact absurd howner (hglobals hcalls)
            · intro id v hv
              exact hlearns' id v (hunassigned id v hv).1
  | some k =>
      obtain ⟨value, elidable⟩ := k
      cases value with
      | int n => trivial
      | float x => trivial
      | bool b =>
          have hanswer : forall b', some b = some b' -> exists k, c.known = some k ∧
              k.value = .bool b' := by
            rintro _ ⟨⟩
            exact ⟨_, hknown, rfl⟩
          cases b with
          | false =>
              exact ⟨least, Nat.le_refl _, served_branch hc hfolded.simplifies.pos hlearns htable₁
                (Nat.le_refl _) hanswer (fun hne => absurd rfl hne) (fun _ _ _ => id)
                (learns_of_sub _ fun _ _ => id)⟩
          | true =>
              apply (hbody c s₁ hslot htable₁).bind
              rintro result s₂ ⟨least', hle, hserved⟩
              cases result with
              | none => exact ⟨least', hle, served_gaveUp hserved.table⟩
              | some kept =>
                  exact ⟨least', hle, served_branch hc hfolded.simplifies.pos hlearns hserved.table
                    hle hanswer (fun _ => hserved.runs kept rfl) (fun hne => absurd rfl hne)
                    (hserved.learns kept rfl)⟩

omit htable in
theorem served_loop {t : FoldState} {stats : FoldStats} {cond' : Expr} {kept : List Stmt}
    {least' : Nat} (htable : p.Open mode.folding least' t.program)
    (hfit : p.Fit (Stmt.whileDo pos cond' head kept).mentions)
    (hruns : forall (σ : Type) (l : Loaded σ) (fuel : Nat), l.program = p ->
      EndsAlike (mode.quota + 1 + least' ≤ fuel) (Machine.Knows p .empty)
        (Eval.stmt p fuel (l.invoke fuel) (.whileDo pos cond head body))
        (Eval.stmt p fuel (l.invoke fuel) (.whileDo pos cond' head kept)) fun _ m =>
          m.Knows p .empty) :
    StmtServed p mode (.whileDo pos cond head body) s least'
      (.keep (.whileDo pos cond' head kept))
      { t with known := knownBehind t.program s.known cond' kept, stats := stats } := by
  refine served_kept htable ?_ (learns_of_sub _ fun id v hv => (get?_knownBehind hv).1)
  intro σ l fuel hl
  subst hl
  have hempty : forall m : Machine σ, m.Knows l.program (mode.visible s.known) ->
      m.Knows l.program .empty := fun m hm => knows_empty hm.shaped
  have hboth := ((hruns σ l fuel rfl).mono hempty fun _ _ hm => hm).and_behind
    fun m flow m' hm hrun => hm.loop hp htable.shell hfit hrun
  exact hboth.mono (fun _ hm => hm) fun _ _ hm _ => hm.2

omit htable in
theorem served_unfolded {t : FoldState} {least' : Nat}
    (htable : p.Open mode.folding least' t.program)
    (hfit : p.Fit (Stmt.whileDo pos cond head body).mentions) {result : FoldedLoop}
    (hresult : forall cond' body', result ≠ .folded cond' body') :
    Yields (endLoop mode s pos cond head body result) t fun r s' =>
      StmtServed p mode (.whileDo pos cond head body) s least' r s' := by
  have hsame : forall stats : FoldStats, StmtServed p mode (.whileDo pos cond head body) s least'
      (.keep (.whileDo pos cond head body))
      { t with known := knownBehind t.program s.known cond body, stats := stats } := by
    intro stats
    apply served_loop hp htable hfit
    intro σ l fuel hl
    subst hl
    have hshape := Scriptlet.keeps_stmt (invariant_shaped hp.wellFormed.tables fuel) fuel
      (.whileDo pos cond head body) fun _ _ => trivial
    exact endsAlike_self fun m _ m' hm hrun => knows_empty (hshape.of_done hm.shaped hrun).2
  cases result with
  | folded cond' body' => exact absurd rfl (hresult cond' body')
  | neverEntered => exact .of_eq (endLoop_neverEntered s) (hsame _)
  | gaveUp =>
      cases hmode : mode.constantOnly with
      | true => exact .of_eq (endLoop_gaveUp_inside hmode s) (served_gaveUp htable)
      | false => exact .of_eq (endLoop_gaveUp_outside hmode s) (hsame _)

theorem served_whileDo
    (hmentions : Admitted (Mention.Followed p mode.folding)
      (Stmt.whileDo pos cond head body).mentions)
    (hbody : forall c s₁, slot { mode with constantOnly := true } cond s = .ok (c, s₁) ->
      p.Open mode.folding least s₁.program ->
      Yields (stmts { mode with constantOnly := true } enter body) s₁ fun result s' =>
        (exists least', least ≤ least' ∧
          ListServed p { mode with constantOnly := true } body s₁ least' result s') ∧
        Edits mode.folding body s₁ result s') :
    Yields (stmt mode enter (.whileDo pos cond head body)) s fun r s' => exists least',
      least ≤ least' ∧ StmtServed p mode (.whileDo pos cond head body) s least' r s' := by
  have hfit : p.Fit (Stmt.whileDo pos cond head body).mentions :=
    fun m hm => (hmentions m hm).fits
  have hunfolded : forall {result t least'}, (forall cond' body', result ≠ .folded cond' body') ->
      least ≤ least' -> p.Open mode.folding least' t.program ->
      Yields (endLoop mode s pos cond head body result) t fun r s' => exists least',
        least ≤ least' ∧ StmtServed p mode (.whileDo pos cond head body) s least' r s' := by
    intro result t least' hresult hle htable
    exact (served_unfolded hp htable hfit hresult).mono fun _ _ h => ⟨least', hle, h⟩
  apply Ensures.get_bind
  have hcond := @yields_slotServed p hp { mode with constantOnly := true } s least
    htable cond hmentions.left
  apply hcond.remember.bind
  rintro c s₁ ⟨hslot, hc, hfolded, htable₁, -⟩
  cases hknown : c.known with
  | none => exact hunfolded (fun _ _ => nofun) (Nat.le_refl _) htable₁
  | some k =>
      obtain ⟨value, elidable⟩ := k
      cases value with
      | int n => trivial
      | float x => trivial
      | bool b =>
          cases b with
          | false => exact hunfolded (fun _ _ => nofun) (Nat.le_refl _) htable₁
          | true =>
              apply (hbody c s₁ hslot htable₁).bind
              rintro result s₂ ⟨⟨least', hle, hserved⟩, hedits⟩
              cases result with
              | none => exact hunfolded (fun _ _ => nofun) hle hserved.table
              | some kept =>
                  refine .of_eq (endLoop_folded s c.tree kept)
                    ⟨least', hle, served_loop hp hserved.table ?_ ?_⟩
                  · intro m hm
                    have hsub := hfolded.simplifies.mentions_sublist.append
                      (hedits.tree kept rfl).mentions_sublist
                    exact hfit m (hsub.subset hm)
                  · intro σ l fuel hl
                    have hanswer : forall b, none = some b -> exists k, c.known = some k ∧
                        k.value = .bool b := nofun
                    have hdecided := hc.decided hfolded.simplifies.pos .whileCondition hanswer
                    exact (hdecided.weaken (Nat.add_le_add_left hle _))
                      |>.whileDo hp.wellFormed (hserved.runs kept rfl) l fuel hl

end Conditions
end Slots
end Fold
end Scriptlet
