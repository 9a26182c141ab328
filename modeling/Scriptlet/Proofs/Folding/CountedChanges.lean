import Scriptlet.Proofs.Folding.CountedReplacements
import Scriptlet.Proofs.Folding.Repetition

/-!
# Changes that are counted

The pass counts what it replaces, elides and removes.  If it counted anything, the program has
changed: each count takes away a part of it, and no part comes back.  If it counted nothing,
the statements of the outermost level are the same, and so are the bodies of functions that are
not declared inside of a loop.

A loop is the exception because the pass takes back what it counted in a loop that it leaves as
it was.  The bodies of the functions that are declared in there are folded in the table and
stay folded.
-/

namespace Scriptlet

/-!
# Weights of statements
-/

mutual

def Stmt.weight : Stmt -> Nat
  | .constDecl _ _ => 0
  | .varDecl _ _ none => 0
  | .varDecl _ _ (some init) => init.weight
  | .funDecl _ _ => 1
  | .block _ body => Stmt.listWeight body + 1
  | .ifThen _ cond _ body => cond.weight + Stmt.listWeight body
  | .whileDo _ cond _ body => cond.weight + Stmt.listWeight body
  | .ret _ value => value.weight
  | .assign _ _ value => value.weight
  | .call _ _ args => Expr.listWeight args + 1
  | .async _ _ _ args => Expr.listWeight args
  | .await _ _ => 0

def Stmt.listWeight : List Stmt -> Nat
  | [] => 0
  | s :: rest => s.weight + Stmt.listWeight rest

end

theorem Stmt.listWeight_append (xs ys : List Stmt) :
    Stmt.listWeight (xs ++ ys) = Stmt.listWeight xs + Stmt.listWeight ys := by
  induction xs with
  | nil => simp [Stmt.listWeight]
  | cons s xs ih =>
      rw [List.cons_append, Stmt.listWeight, Stmt.listWeight, ih, Nat.add_assoc]

theorem Stmt.listWeight_singleton (s : Stmt) : Stmt.listWeight [s] = s.weight :=
  rfl

/-!
# Weights of programs
-/

def Function.weight (f : Function) : Nat :=
  match f.body with
  | some block => Stmt.listWeight block.body
  | none => 0

theorem sum_set_add {ns : List Nat} {i v : Nat} (h : i < ns.length) :
    (ns.set i v).sum + ns[i] = ns.sum + v := by
  induction ns generalizing i with
  | nil => cases h
  | cons n ns ih =>
      cases i with
      | zero =>
          simp only [List.set_cons_zero, List.sum_cons, List.getElem_cons_zero]
          omega
      | succ i =>
          have hrest := ih (Nat.lt_of_succ_lt_succ h)
          simp only [List.set_cons_succ, List.sum_cons, List.getElem_cons_succ]
          omega

namespace Program

def weight (p : Program) : Nat :=
  (p.functions.map Function.weight).sum

theorem weight_function (p : Program) (f : FunId) :
    (p.function f).weight = Stmt.listWeight (p.bodyOf f) := by
  rw [Function.weight, bodyOf]
  cases (p.function f).body <;> rfl

theorem weight_withBody (p : Program) {f : FunId} (body : List Stmt)
    (h : (p.function f).isNative = false) :
    (Fold.withBody p f body).weight + Stmt.listWeight (p.bodyOf f) =
      p.weight + Stmt.listWeight body := by
  rw [← weight_function]
  unfold Fold.withBody
  cases hblock : (p.function f).body with
  | none => simp [Function.isNative, hblock] at h
  | some block =>
      have hf := lt_of_body hblock
      have hweights : f < (p.functions.map Function.weight).length := by
        rw [List.length_map]
        exact hf
      have hfunction : p.function f = p.functions[f] := by
        rw [function, List.getD_eq_getElem?_getD, List.getElem?_eq_getElem hf]
        rfl
      have hsum := sum_set_add (v := Stmt.listWeight body) hweights
      rw [List.getElem_map, ← hfunction] at hsum
      simp only [weight, setFunction, List.map_set]
      exact hsum

theorem withBody_of_native {p : Program} {f : FunId} (body : List Stmt)
    (h : (p.function f).isNative = true) : Fold.withBody p f body = p := by
  rw [Fold.withBody, Option.isNone_iff_eq_none.mp h]

theorem weight_taken (p : Program) (f : FunId) :
    (Fold.withBody p f []).weight + Stmt.listWeight (p.bodyOf f) = p.weight := by
  cases h : (p.function f).isNative with
  | false =>
      rw [weight_withBody p [] h]
      rfl
  | true =>
      rw [withBody_of_native [] h, bodyOf_of_native h]
      rfl

theorem weight_put_le (p : Program) (f : FunId) (body : List Stmt) :
    (Fold.withBody p f body).weight ≤ p.weight + Stmt.listWeight body := by
  cases h : (p.function f).isNative with
  | false =>
      have hweight := weight_withBody p body h
      omega
  | true =>
      rw [withBody_of_native body h]
      exact Nat.le_add_right _ _

/-- Nothing but bodies has changed, and together they have not become heavier. -/
structure Lightened (q q' : Program) : Prop where
  shell : q.SameShell q'
  weight : q'.weight ≤ q.weight

theorem Lightened.of_eq {q q' : Program} (h : q' = q) : Lightened q q' := by
  rw [h]
  exact ⟨.refl q, Nat.le_refl _⟩

theorem Lightened.trans {q q' q'' : Program} (h : Lightened q q') (h' : Lightened q' q'') :
    Lightened q q'' :=
  ⟨h.shell.trans h'.shell, Nat.le_trans h'.weight h.weight⟩

def InLoop (p : Program) (g : FunId) : Prop :=
  exists owner pos cond head body,
    (FoldTask.stmt (.whileDo pos cond head body)).StandsIn p owner ∧
      p.Covers (Stmt.listMentions body) g

def SameOffLoops (p q q' : Program) : Prop :=
  forall g, ¬ p.InLoop g -> q'.bodyOf g = q.bodyOf g

theorem SameOffLoops.of_eq {p q q' : Program} (h : q' = q) : p.SameOffLoops q q' :=
  fun _ _ => by rw [h]

theorem SameOffLoops.trans {p q q' q'' : Program} (h : p.SameOffLoops q q')
    (h' : p.SameOffLoops q' q'') : p.SameOffLoops q q'' :=
  fun g hg => (h' g hg).trans (h g hg)

end Program

/-!
# Statements that are paid for
-/

namespace Fold

open FoldPoint

/-- The statements became those that are kept.  Each count is paid for by the weight of
statements and bodies, and where nothing was counted, nothing outside of loops has changed. -/
structure Settled (p : Program) (before kept : List Stmt) (s s' : FoldState) : Prop where
  counted : s.stats.total ≤ s'.stats.total
  paid : Stmt.listWeight kept + s'.program.weight + s'.stats.total ≤
    Stmt.listWeight before + s.program.weight + s.stats.total
  same : s'.stats.total = s.stats.total ->
    kept = before ∧ p.SameOffLoops s.program s'.program

/-- The same for a piece that may have given up; what was counted in it is taken back then. -/
structure Accounted (p : Program) (before : List Stmt) (s : FoldState) (left : Option (List Stmt))
    (s' : FoldState) : Prop where
  program : s.program.Lightened s'.program
  settled : forall kept, left = some kept -> Settled p before kept s s'

section Plain

variable {p : Program} {before kept : List Stmt} {s s' s'' : FoldState}

theorem accounted_gaveUp (h : s.program.Lightened s'.program) : Accounted p before s none s' :=
  ⟨h, fun _ hkept => nomatch hkept⟩

theorem accounted_settled (h : s.program.Lightened s'.program)
    (hsettled : Settled p before kept s s') : Accounted p before s (some kept) s' := by
  refine ⟨h, ?_⟩
  intro kept' hkept
  cases hkept
  exact hsettled

theorem settled_single {st st' : Stmt} (hprogram : s'.program = s.program)
    (h : Paid Stmt.weight st st' s.stats.total s'.stats.total) : Settled p [st] [st'] s s' where
  counted := h.counted
  paid := by
    rw [Stmt.listWeight_singleton, Stmt.listWeight_singleton, hprogram]
    have hpaid := h.paid
    omega
  same := fun heq => ⟨by rw [h.same heq], .of_eq hprogram⟩

theorem accounted_single {st st' : Stmt} (hprogram : s'.program = s.program)
    (h : Paid Stmt.weight st st' s.stats.total s'.stats.total) :
    Accounted p [st] s (some [st']) s' :=
  accounted_settled (.of_eq hprogram) (settled_single hprogram h)

theorem accounted_untouched (st : Stmt) (hprogram : s'.program = s.program)
    (hstats : s'.stats = s.stats) : Accounted p [st] s (some [st]) s' := by
  apply accounted_single hprogram
  rw [hstats]
  exact .refl _ _ _

theorem Settled.behind (h : Settled p before kept s s') (hprogram : s''.program = s'.program)
    (hstats : s''.stats = s'.stats) : Settled p before kept s s'' := by
  obtain ⟨hcounted, hpaid, hsame⟩ := h
  rw [← hprogram, ← hstats] at hpaid
  rw [← hstats] at hcounted hsame
  rw [← hprogram] at hsame
  exact ⟨hcounted, hpaid, hsame⟩

theorem Accounted.behind {left : Option (List Stmt)} (h : Accounted p before s left s')
    (hprogram : s''.program = s'.program) (hstats : s''.stats = s'.stats) :
    Accounted p before s left s'' :=
  ⟨hprogram ▸ h.program, fun kept hkept => (h.settled kept hkept).behind hprogram hstats⟩

theorem Settled.append {rest rest' : List Stmt} (h : Settled p before kept s s')
    (h' : Settled p rest rest' s' s'') : Settled p (before ++ rest) (kept ++ rest') s s'' where
  counted := Nat.le_trans h.counted h'.counted
  paid := by
    rw [Stmt.listWeight_append, Stmt.listWeight_append]
    have hpaid := h.paid
    have hpaid' := h'.paid
    omega
  same := by
    intro heq
    have hcounted := h.counted
    have hcounted' := h'.counted
    rcases h.same (by omega) with ⟨hkept, hbodies⟩
    rcases h'.same (by omega) with ⟨hrest, hbodies'⟩
    exact ⟨by rw [hkept, hrest], hbodies.trans hbodies'⟩

theorem Settled.under {cond cond' : Expr} {body body' : List Stmt}
    (build : Expr -> List Stmt -> Stmt)
    (hbuild : forall e b, (build e b).weight = e.weight + Stmt.listWeight b)
    (hcond : cond.PaidFor cond' s s') (hprogram : s'.program = s.program)
    (h : Settled p body body' s' s'') : Settled p [build cond body] [build cond' body'] s s'' where
  counted := Nat.le_trans hcond.counted h.counted
  paid := by
    rw [Stmt.listWeight_singleton, Stmt.listWeight_singleton, hbuild, hbuild]
    have hpaid := hcond.paid
    have hpaid' := h.paid
    rw [hprogram] at hpaid'
    omega
  same := by
    intro heq
    have hcounted := hcond.counted
    have hcounted' := h.counted
    rcases h.same (by omega) with ⟨hbody, hbodies⟩
    rw [hprogram] at hbodies
    exact ⟨by rw [hbody, hcond.same (by omega)], hbodies⟩

theorem Settled.block {head : BlockHead} {body body' : List Stmt} (h : Settled p body body' s s') :
    Settled p [.block head body] [.block head body'] s s' where
  counted := h.counted
  paid := by
    rw [Stmt.listWeight_singleton, Stmt.listWeight_singleton, Stmt.weight, Stmt.weight]
    have hpaid := h.paid
    omega
  same := by
    intro heq
    rcases h.same heq with ⟨hbody, hbodies⟩
    exact ⟨by rw [hbody], hbodies⟩

theorem settled_removed {st : Stmt} {n : Nat} (hcounted : s.stats.total ≤ n)
    (hpaid : s'.program.weight + n < st.weight + s.program.weight + s.stats.total)
    (hcount : s'.stats.total = n + 1) : Settled p [st] [] s s' where
  counted := by omega
  paid := by
    rw [Stmt.listWeight_singleton, Stmt.listWeight]
    omega
  same := by omega

theorem Settled.removed {st : Stmt} {body : List Stmt} (h : Settled p body [] s s')
    (hst : st.weight = Stmt.listWeight body + 1) :
    Settled p [st] [] s { s' with stats := s'.stats.addRemoved } := by
  apply settled_removed h.counted _ (FoldStats.total_addRemoved s'.stats)
  have hpaid := h.paid
  rw [Stmt.listWeight] at hpaid
  show s'.program.weight + _ < _
  omega

end Plain

/-!
# Statements without bodies
-/

section Simple

variable {p : Program} {mode : FoldMode} {s : FoldState}

theorem yields_slotPaid (hs : s.Typed p) (mode : FoldMode) (e : Expr) :
    Yields (slot mode e) s fun x s' => e.PaidFor x.tree s s' ∧ s'.program = s.program := by
  apply ((paid_slot mode e s).remember).mono
  rintro x s' ⟨hslot, hx⟩
  exact ⟨hx, (slotTyped_of_ok hs hslot).program⟩

theorem accounted_assigned (hs : s.Typed p) (build : Expr -> Stmt) (id : VarId) (e : Expr)
    (hbuild : forall e, (build e).weight = e.weight) :
    Yields (do
      let x ← slot mode e
      if givesUp mode x then
        return FoldedStmt.giveUp
      else
        assign id x
        return .keep (build x.tree)) s fun r s' => Accounted p [build e] s r.left? s' := by
  apply (yields_slotPaid hs mode e).bind
  rintro x s₁ ⟨hx, hprogram⟩
  apply Ensures.ite
  · intro _
    exact accounted_gaveUp (.of_eq hprogram)
  · intro _
    apply ((yields_assign id x s₁).and (stats_assign id x s₁)).bind
    rintro _ s₂ ⟨hassigned, hstats⟩
    exact (accounted_single hprogram (hx.under build 0 hbuild)).behind hassigned hstats

theorem accounted_ret (hs : s.Typed p) (pos : Pos) (e : Expr) {enter : FunId -> Fold Unit} :
    Yields (stmt mode enter (.ret pos e)) s fun r s' => Accounted p [.ret pos e] s r.left? s' := by
  apply (yields_slotPaid hs mode e).bind
  rintro x s₁ ⟨hx, hprogram⟩
  apply Ensures.ite
  · intro _
    exact accounted_gaveUp (.of_eq hprogram)
  · intro _
    apply ((stats_checkReturn mode x s₁).and (yields_checkReturn x s₁)).bind
    rintro _ s₂ ⟨hstats, hchecked⟩
    have hret : Paid Stmt.weight (.ret pos e) (.ret pos x.tree) s.stats.total s₁.stats.total :=
      hx.under (Stmt.ret pos) 0 fun _ => rfl
    exact (accounted_single hprogram hret).behind hchecked hstats

theorem accounted_callStmt (hs : s.Typed p) (pos : Pos) (f : FunId) (args : List Expr) :
    Yields (callStmt mode pos f args) s fun r s' =>
      Accounted p [.call pos f args] s r.left? s' := by
  apply ((paid_arguments mode args s).remember).bind
  rintro xs s₁ ⟨hfolded, hxs⟩
  have htyped := argsTyped_of_ok hs hfolded
  have hcall := (stats_callWith mode pos f xs s₁).and
    ((checks_callWith mode htyped.state pos f htyped.types).blame fun _ _ => trivial)
  apply hcall.bind
  rintro call s₂ ⟨hstats, hchecked⟩
  have hprogram := hchecked.program.trans htyped.program
  have hcall : Paid Stmt.weight (.call pos f args) (.call pos f xs.trees) s.stats.total
      s₂.stats.total := by
    rw [hstats]
    exact hxs.under (Stmt.call pos f) 1 fun _ => rfl
  have hkept : Accounted p [.call pos f args] s (some [.call pos f xs.trees]) s₂ :=
    accounted_single hprogram hcall
  cases call with
  | none =>
      apply Ensures.ite
      · intro _
        exact accounted_gaveUp (.of_eq hprogram)
      · intro _
        exact hkept
  | some c =>
      apply Ensures.ite
      · intro _
        apply Ensures.modify_bind
        refine accounted_settled (.of_eq hprogram) (settled_removed hcall.counted ?_
          (FoldStats.total_addElided s₂.stats))
        have hpaid := hcall.paid
        rw [Stmt.weight] at hpaid
        show s₂.program.weight + _ < _
        rw [hprogram]
        omega
      · intro _
        exact hkept

theorem accounted_asyncStmt (hs : s.Typed p) (pos : Pos) (target : VarId) (f : FunId)
    (args : List Expr) :
    Yields (asyncStmt mode pos target f args) s fun r s' =>
      Accounted p [.async pos target f args] s r.left? s' := by
  apply Ensures.ite
  · intro _
    exact accounted_gaveUp (.of_eq rfl)
  · intro _
    have hreach : Reaches ⟨mode, 0, .arguments args, s⟩ ⟨mode, 0, .arguments args, s⟩ := .refl
    have hargs := (paid_asyncArguments mode args s).and
      ((ensures_asyncArguments mode 0 args hreach hs).blame fun _ _ => trivial)
    apply hargs.bind
    rintro trees s₁ ⟨htrees, hprogram, -⟩
    have hasync : Paid Stmt.weight (.async pos target f args) (.async pos target f trees)
        s.stats.total s₁.stats.total :=
      htrees.under (Stmt.async pos target f) 0 fun _ => rfl
    have hkept : Accounted p [.async pos target f args] s (some [.async pos target f trees]) s₁ :=
      accounted_single hprogram hasync
    apply Ensures.modify_bind
    apply Ensures.get_bind
    apply Ensures.ite
    · intro _
      exact hkept.behind rfl rfl
    · intro _
      exact hkept.behind rfl rfl

end Simple

/-!
# Conditions and loops
-/

section Conditions

variable {p : Program} {mode : FoldMode} {enter : FunId -> Fold Unit} {s : FoldState} {pos : Pos}
  {cond : Expr} {head : BlockHead} {body : List Stmt}

theorem accounted_ifThen (hs : s.Typed p)
    (hbody : forall c s₁, slot mode cond s = .ok (c, s₁) ->
      Yields (stmts mode enter body) s₁ (Accounted p body s₁)) :
    Yields (stmt mode enter (.ifThen pos cond head body)) s fun r s' =>
      Accounted p [.ifThen pos cond head body] s r.left? s' := by
  apply (yields_slotPaid hs mode cond).remember.bind
  rintro c s₁ ⟨hslot, hc, hprogram⟩
  have hentered : forall {kept s₂}, Accounted p body s₁ (some kept) s₂ ->
      Accounted p [.ifThen pos cond head body] s (some [.ifThen pos c.tree head kept]) s₂ :=
    fun h => accounted_settled (hprogram ▸ h.program)
      ((h.settled _ rfl).under (fun e b => .ifThen pos e head b) (fun _ _ => rfl) hc hprogram)
  cases c.known with
  | none =>
      apply Ensures.ite
      · intro _
        exact accounted_gaveUp (.of_eq hprogram)
      · intro _
        apply (hbody c s₁ hslot).bind
        intro result s₂ haccounted
        cases result with
        | none => exact accounted_gaveUp (hprogram ▸ haccounted.program)
        | some kept =>
            apply Ensures.modify_bind
            exact (hentered haccounted).behind rfl rfl
  | some k =>
      obtain ⟨value, elidable⟩ := k
      cases value with
      | int n => trivial
      | float x => trivial
      | bool b =>
          cases b with
          | false =>
              have hif : Paid Stmt.weight (.ifThen pos cond head body)
                  (.ifThen pos c.tree head body) s.stats.total s₁.stats.total :=
                hc.under (fun e => Stmt.ifThen pos e head body) (Stmt.listWeight body) fun _ => rfl
              exact accounted_single hprogram hif
          | true =>
              apply (hbody c s₁ hslot).bind
              intro result s₂ haccounted
              cases result with
              | none => exact accounted_gaveUp (hprogram ▸ haccounted.program)
              | some kept => exact hentered haccounted

theorem accounted_endLoop {before t : FoldState} (hlightened : before.program.Lightened t.program)
    (hsame : p.SameOffLoops before.program t.program) (result : FoldedLoop)
    (hresult : forall cond' body', result = .folded cond' body' ->
      Settled p [.whileDo pos cond head body] [.whileDo pos cond' head body'] before t) :
    Yields (endLoop mode before pos cond head body result) t fun r s' =>
      Accounted p [.whileDo pos cond head body] before r.left? s' := by
  have hfinish : forall (cond' : Expr) (body' : List Stmt) (u : FoldState),
      u.program = t.program ->
      Settled p [.whileDo pos cond head body] [.whileDo pos cond' head body'] before u ->
      Yields (do
        forgetAssigned (Assigned.byStmts body')
        if cond'.hasCall then
          forgetGlobals
        return FoldedStmt.keep (.whileDo pos cond' head body')) u fun r s' =>
        Accounted p [.whileDo pos cond head body] before r.left? s' := by
    intro cond' body' u hu hsettled
    have haccounted := accounted_settled (hu ▸ hlightened) hsettled
    apply Ensures.modify_bind
    apply Ensures.ite
    · intro _
      exact haccounted.behind rfl rfl
    · intro _
      exact haccounted.behind rfl rfl
  have hleft : forall u : FoldState, u.program = t.program -> u.stats = before.stats ->
      Settled p [.whileDo pos cond head body] [.whileDo pos cond head body] before u := by
    intro u hprogram hstats
    refine ⟨by rw [hstats], ?_, fun _ => ⟨rfl, hprogram ▸ hsame⟩⟩
    rw [hstats, hprogram]
    have hweight := hlightened.weight
    omega
  apply Ensures.modify_bind
  cases result with
  | folded cond' body' =>
      exact hfinish cond' body' _ rfl ((hresult cond' body' rfl).behind rfl rfl)
  | neverEntered =>
      apply Ensures.modify_bind
      exact hfinish cond body _ rfl (hleft _ rfl rfl)
  | gaveUp =>
      apply Ensures.ite
      · intro _
        exact accounted_gaveUp hlightened
      · intro _
        apply Ensures.modify_bind
        exact hfinish cond body _ rfl (hleft _ rfl rfl)

theorem accounted_whileDo (hs : s.Typed p)
    (hbody : forall c s₁, slot { mode with constantOnly := true } cond s = .ok (c, s₁) ->
      Yields (stmts { mode with constantOnly := true } enter body) s₁ fun r s' =>
        Accounted p body s₁ r s' ∧ p.SameOffLoops s₁.program s'.program) :
    Yields (stmt mode enter (.whileDo pos cond head body)) s fun r s' =>
      Accounted p [.whileDo pos cond head body] s r.left? s' := by
  apply Ensures.get_bind
  apply (yields_slotPaid hs _ cond).remember.bind
  rintro c s₁ ⟨hslot, hc, hprogram⟩
  have hunfolded : forall result : FoldedLoop,
      (forall cond' body', result ≠ .folded cond' body') -> forall {t : FoldState},
      s.program.Lightened t.program -> p.SameOffLoops s.program t.program ->
      Yields (endLoop mode s pos cond head body result) t fun r s' =>
        Accounted p [.whileDo pos cond head body] s r.left? s' := by
    intro result hresult t ht hsame
    exact accounted_endLoop ht hsame result fun cond' body' h => absurd h (hresult cond' body')
  cases c.known with
  | none => exact hunfolded .gaveUp (fun _ _ => nofun) (.of_eq hprogram) (.of_eq hprogram)
  | some k =>
      obtain ⟨value, elidable⟩ := k
      cases value with
      | int n => trivial
      | float x => trivial
      | bool b =>
          cases b with
          | false =>
              exact hunfolded .neverEntered (fun _ _ => nofun) (.of_eq hprogram) (.of_eq hprogram)
          | true =>
              apply (hbody c s₁ hslot).bind
              rintro result s₂ ⟨haccounted, hsame⟩
              have hlightened := hprogram ▸ haccounted.program
              rw [hprogram] at hsame
              cases result with
              | none => exact hunfolded .gaveUp (fun _ _ => nofun) hlightened hsame
              | some kept =>
                  apply accounted_endLoop hlightened hsame
                  rintro cond' body' heq
                  cases heq
                  exact (haccounted.settled kept rfl).under (fun e b => .whileDo pos e head b)
                    (fun _ _ => rfl) hc hprogram

end Conditions

/-!
# The pass
-/

section Pass

variable {p : Program}

def EntersAccounted (p : Program) (quota depth : Nat) (folding : List FunId) : Prop :=
  forall (mode : FoldMode) (pos : Pos) (f : FunId) (s : FoldState), mode.quota = quota ->
    mode.folding = folding -> Faithful p ⟨mode, depth, .stmt (.funDecl pos f), s⟩ ->
    Yields (functionWithin quota depth folding f) s fun _ s' => Accounted p [] s (some []) s'

theorem accounted_funDecl {mode : FoldMode} {depth : Nat} {pos : Pos} {f : FunId} {s : FoldState}
    (henter : EntersAccounted p mode.quota depth mode.folding)
    (ha : Faithful p ⟨mode, depth, .stmt (.funDecl pos f), s⟩) :
    Yields (funDecl (functionWithin mode.quota depth mode.folding) pos f) s fun r s' =>
      Accounted p [.funDecl pos f] s r.left? s' := by
  apply (henter mode pos f s rfl rfl ha).bind
  intro _ s₁ haccounted
  have hentered := haccounted.settled [] rfl
  have hkept : Accounted p [.funDecl pos f] s (some [.funDecl pos f]) s₁ :=
    accounted_settled haccounted.program
      (hentered.append (settled_single rfl (.refl Stmt.weight (.funDecl pos f) s₁.stats.total)))
  apply Ensures.get_bind
  cases (s₁.program.function f).body with
  | none => exact hkept
  | some block =>
      apply Ensures.ite
      · intro _
        apply Ensures.modify_bind
        exact accounted_settled haccounted.program (hentered.removed rfl)
      · intro _
        exact hkept

theorem sameOffLoops_of_changesBelow {owner : Option FunId} {pos : Pos} {cond : Expr}
    {head : BlockHead} {body : List Stmt} {s s' : FoldState}
    (hloop : (FoldTask.stmt (.whileDo pos cond head body)).StandsIn p owner)
    (h : ChangesBelow p (Stmt.listMentions body) s s') : p.SameOffLoops s.program s'.program :=
  fun g hg => h.bodies g fun hcovers => hg ⟨owner, pos, cond, head, body, hloop, hcovers⟩

mutual

theorem accounted_stmt (hnested : p.WellNested) (mode : FoldMode) (depth : Nat)
    (henter : EntersAccounted p mode.quota depth mode.folding) :
    forall (st : Stmt) {s : FoldState}, Faithful p ⟨mode, depth, .stmt st, s⟩ ->
    Yields (stmt mode (functionWithin mode.quota depth mode.folding) st) s fun r s' =>
      Accounted p [st] s r.left? s'
  | .constDecl pos id, s, _ => accounted_untouched _ rfl rfl
  | .varDecl pos id none, s, _ => accounted_untouched _ rfl rfl
  | .varDecl pos id (some init), s, ha =>
      accounted_assigned ha.typed (fun tree => .varDecl pos id (some tree)) id init fun _ => rfl
  | .assign pos id value, s, ha =>
      accounted_assigned ha.typed (.assign pos id) id value fun _ => rfl
  | .funDecl pos f, s, ha => accounted_funDecl henter ha
  | .block head body, s, ha => by
      apply (accounted_stmts hnested mode depth henter body (ha.inner .block rfl)).bind
      intro result s₁ haccounted
      cases result with
      | none => exact accounted_gaveUp haccounted.program
      | some body' =>
          have hbody := haccounted.settled body' rfl
          cases body' with
          | nil =>
              apply Ensures.modify_bind
              exact accounted_settled haccounted.program (hbody.removed rfl)
          | cons first rest => exact accounted_settled haccounted.program hbody.block
  | .ifThen pos cond head body, s, ha => by
      apply accounted_ifThen ha.typed
      intro c s₁ hslot
      have hc := slotTyped_of_ok ha.typed hslot
      exact accounted_stmts hnested mode depth henter body
        (ha.behind .branch rfl hc.state hc.program)
  | .whileDo pos cond head body, s, ha => by
      apply accounted_whileDo ha.typed
      intro c s₁ hslot
      have hc := slotTyped_of_ok ha.typed hslot
      have hbody : Faithful p ⟨{ mode with constantOnly := true }, depth, .stmts body, s₁⟩ :=
        ha.behind .loopBody rfl hc.state hc.program
      apply ((accounted_stmts hnested { mode with constantOnly := true } depth henter body
        hbody).and (changesBelow_stmts hnested hbody)).mono
      rintro result s₂ ⟨haccounted, hchanges⟩
      exact ⟨haccounted, sameOffLoops_of_changesBelow ha.stands hchanges⟩
  | .ret pos value, s, ha => accounted_ret ha.typed pos value
  | .call pos f args, s, ha => accounted_callStmt ha.typed pos f args
  | .async pos target f args, s, ha => accounted_asyncStmt ha.typed pos target f args
  | .await pos target, s, ha => by
      apply Ensures.ite
      · intro _
        exact accounted_gaveUp (.of_eq rfl)
      · intro _
        exact accounted_untouched _ rfl rfl

theorem accounted_stmts (hnested : p.WellNested) (mode : FoldMode) (depth : Nat)
    (henter : EntersAccounted p mode.quota depth mode.folding) :
    forall (body : List Stmt) {s : FoldState}, Faithful p ⟨mode, depth, .stmts body, s⟩ ->
    Yields (stmts mode (functionWithin mode.quota depth mode.folding) body) s
      (Accounted p body s)
  | [], s, _ => accounted_settled (.of_eq rfl)
      ⟨Nat.le_refl _, Nat.le_refl _, fun _ => ⟨rfl, .of_eq rfl⟩⟩
  | st :: rest, s, ha => by
      have hst := ha.inner .first rfl
      have hfirst := (accounted_stmt hnested mode depth henter st hst).and
        (changesBelow_stmt hnested hst)
      apply hfirst.bind
      rintro first s₁ ⟨hfirst, hchanged⟩
      have hrest := accounted_stmts hnested mode depth henter rest (ha.next hnested hchanged)
      have happend : forall {left result s₂}, first.left? = some left ->
          Accounted p rest s₁ (some result) s₂ ->
          Accounted p (st :: rest) s (some (left ++ result)) s₂ :=
        fun hleft h => accounted_settled (hfirst.program.trans h.program)
          ((hfirst.settled _ hleft).append (h.settled _ rfl))
      cases first with
      | giveUp => exact accounted_gaveUp hfirst.program
      | remove =>
          apply hrest.mono
          intro result s₂ haccounted
          cases result with
          | none => exact accounted_gaveUp (hfirst.program.trans haccounted.program)
          | some kept => exact happend rfl haccounted
      | keep st' =>
          apply hrest.bind
          intro result s₂ haccounted
          cases result with
          | none => exact accounted_gaveUp (hfirst.program.trans haccounted.program)
          | some kept => exact happend rfl haccounted

end

theorem accounted_putBack {f : FunId} {kept : List Stmt} {s s₁ : FoldState} {known : Valuation}
    (h : Accounted p (s.program.bodyOf f) (entered s f) (some kept) s₁) :
    Accounted p [] s (some [])
      { s₁ with program := withBody s₁.program f kept, known := known } := by
  have hsettled := h.settled kept rfl
  have htaken := Program.weight_taken s.program f
  have hput := Program.weight_put_le s₁.program f kept
  have hcounted := hsettled.counted
  have hpaid := hsettled.paid
  have hshell := (Program.sameShell_withBody s.program f []).trans h.program.shell
  have hweight : (withBody s₁.program f kept).weight + s₁.stats.total ≤
      s.program.weight + s.stats.total := by
    change _ + _ + _ ≤ _ + (withBody s.program f []).weight + s.stats.total at hpaid
    omega
  refine accounted_settled ⟨hshell.trans (Program.sameShell_withBody _ f kept), ?_⟩
    ⟨hcounted, ?_, ?_⟩
  · change s.stats.total ≤ s₁.stats.total at hcounted
    show (withBody s₁.program f kept).weight ≤ s.program.weight
    omega
  · show 0 + (withBody s₁.program f kept).weight + s₁.stats.total ≤ 0 + s.program.weight + _
    omega
  · intro heq
    rcases hsettled.same heq with ⟨rfl, hsame⟩
    refine ⟨rfl, ?_⟩
    intro g hg
    by_cases hgf : g = f
    · subst hgf
      cases hnative : (s.program.function g).isNative with
      | true =>
          have hnative' := ((hshell.trans (Program.sameShell_withBody _ g
            (s.program.bodyOf g))).isNative g).trans hnative
          exact (Program.bodyOf_of_native hnative').trans (Program.bodyOf_of_native hnative).symm
      | false =>
          exact Program.bodyOf_withBody_self _ ((hshell.isNative g).trans hnative)
    · have hsame' := hsame g hg
      show (withBody s₁.program f (s.program.bodyOf f)).bodyOf g = s.program.bodyOf g
      rw [bodyOf_withBody_ne _ hgf, hsame']
      exact bodyOf_withBody_ne _ hgf []

theorem entersAccounted_functionWithin (hnested : p.WellNested) (quota depth : Nat) :
    forall folding : List FunId, EntersAccounted p quota depth folding := by
  -- By induction on the number of bodies that may still be opened.
  induction depth with
  | zero =>
      intro folding mode pos f s _ _ _
      exact accounted_settled (.of_eq rfl)
        ⟨Nat.le_refl _, Nat.le_refl _, fun _ => ⟨rfl, .of_eq rfl⟩⟩
  | succ depth ih =>
      intro folding mode pos f s hquota hfolding ha
      subst hquota hfolding
      -- Nothing gives up here, so that what was counted in the body is not taken back.
      have hstmts := (accounted_stmts hnested (bodyMode mode.quota mode.folding f) depth
        (ih (f :: mode.folding)) (s.program.bodyOf f) (ha.body hnested)).and
        (folds_stmts rfl (s.program.bodyOf f) (entered s f))
      apply Ensures.get_bind
      apply Ensures.set_bind
      apply hstmts.bind
      rintro result s₁ ⟨haccounted, hresult⟩
      cases result with
      | none => exact absurd rfl hresult
      | some kept => exact accounted_putBack haccounted

theorem accounted_root (hnested : p.WellNested) (quota : Nat) :
    Yields (root quota p) { program := p, known := .empty, stats := .none } fun kept s =>
      p.SameShell s.program ∧
        Settled p p.root kept { program := p, known := .empty, stats := .none } s := by
  have hstart : Faithful p (FoldPoint.start quota p) :=
    ⟨⟨.refl p, fun _ _ hv => nomatch hv⟩, .refl, fun _ _ => rfl⟩
  have hstmts := (accounted_stmts hnested (FoldPoint.start quota p).mode p.functions.length
    (entersAccounted_functionWithin hnested quota p.functions.length []) p.root hstart).and
    (folds_stmts rfl p.root _)
  apply hstmts.bind
  rintro result s ⟨haccounted, hresult⟩
  cases result with
  | none => exact absurd rfl hresult
  | some kept => exact ⟨haccounted.program.shell, haccounted.settled kept rfl⟩

end Pass
end Fold

/-!
# What the counts say
-/

theorem Program.SameShell.eq_of_bodies {p q : Program} (h : p.SameShell q) (hroot : q.root = p.root)
    (hbodies : forall f, q.bodyOf f = p.bodyOf f) : q = p := by
  have hfunctions : q.functions = p.functions := by
    apply List.ext_getElem h.length
    intro f hq hp
    have hsame := h.function_of_body (hbodies f)
    rw [Program.function, Program.function, List.getD_eq_getElem?_getD,
      List.getD_eq_getElem?_getD, List.getElem?_eq_getElem hq, List.getElem?_eq_getElem hp] at hsame
    exact hsame
  obtain ⟨root, constants, vars, functions, globalCount, globals⟩ := q
  cases hroot
  cases hfunctions
  cases h.constants
  cases h.vars
  cases h.globalCount
  cases h.globals
  rfl

/-- Counts of the pass over a program: whatever is counted is a change, and what is changed
without a count is the body of a function inside of a loop. -/
structure CountsChanges (p : Program) (o : Optimized) : Prop where
  shell : p.SameShell o.program
  changed : o.stats ≠ .none -> o.program ≠ p
  root : o.stats = .none -> o.program.root = p.root
  bodies : o.stats = .none -> forall f, ¬ p.InLoop f -> o.program.bodyOf f = p.bodyOf f

theorem optimize_countsChanges {p : Program} (hp : p.WellNested) {quota : Nat} {o : Optimized}
    (h : p.optimize quota = .ok o) : CountsChanges p o := by
  simp only [Program.optimize] at h
  split at h
  · rename_i root s hroot
    cases h
    rcases (Fold.accounted_root hp quota).of_ok hroot with ⟨hshell, hsettled⟩
    have hpaid := hsettled.paid
    change Stmt.listWeight root + s.program.weight + s.stats.total ≤
      Stmt.listWeight p.root + p.weight + 0 at hpaid
    have hsame : s.stats = .none -> root = p.root ∧ p.SameOffLoops p s.program := by
      intro hstats
      apply hsettled.same
      rw [hstats]
    refine ⟨⟨hshell.constants, hshell.vars, hshell.globalCount, hshell.globals, hshell.functions⟩,
      ?_, fun hstats => (hsame hstats).1, fun hstats => (hsame hstats).2⟩
    intro hstats heq
    have hroot' : root = p.root := congrArg Program.root heq
    have hweight := congrArg Program.weight heq
    change s.program.weight = p.weight at hweight
    rw [hroot', hweight] at hpaid
    have htotal : s.stats.total = 0 := by omega
    exact hstats (FoldStats.total_eq_zero.mp htotal)
  · cases h

/-- Where no function is declared inside of a loop, nothing is counted just when nothing is
changed. -/
theorem stats_eq_none_iff {p : Program} (hp : p.WellNested) (hloops : forall f, ¬ p.InLoop f)
    {quota : Nat} {o : Optimized} (h : p.optimize quota = .ok o) :
    o.stats = .none <-> o.program = p := by
  have hcounts := optimize_countsChanges hp h
  constructor
  · intro hstats
    exact hcounts.shell.eq_of_bodies (hcounts.root hstats) fun f =>
      hcounts.bodies hstats f (hloops f)
  · intro heq
    by_contra hstats
    exact hcounts.changed hstats heq

def loopProgram (value : Expr) : Program :=
  let head (scope : Nat) : BlockHead := { scope := scope, pos := .endOfInput }
  let one : Expr := .literal .endOfInput (.int 1)
  let f : Function :=
    { name := "f", params := [], result := .int, localCount := 0
      body := some { head := head 2, body := [.ret .endOfInput value] } }
  { root := [.varDecl .endOfInput 0 (some one),
      .whileDo .endOfInput (.literal .endOfInput (.bool true)) (head 1)
        [.funDecl .endOfInput 0,
          .assign .endOfInput 0 (.binary .endOfInput .add (.var .endOfInput 0) one)]]
    constants := []
    vars := [{ name := "i", type := .int, owner := none, slot := 0, default := none }]
    functions := [f]
    globalCount := 1
    globals := [.var 0] }

/-- The loop is left as it was, and nothing is counted for the body that was folded. -/
example : (loopProgram (.binary .endOfInput .add (.literal .endOfInput (.int 1))
    (.literal .endOfInput (.int 2)))).optimize 8 =
      .ok { program := loopProgram (.literal .endOfInput (.int 3)), stats := .none } := by
  cbv

end Scriptlet
