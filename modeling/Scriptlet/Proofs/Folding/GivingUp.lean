import Scriptlet.Proofs.Folding.Replacements

/-!
# Giving up

Inside a loop a statement gives up where it meets a value that is not known.  Whatever holds
the statement gives up with it, out to the outermost loop of the same body, and that loop is
kept as it was.  Outside of loops nothing gives up: each statement of a body is folded, and
so is each statement behind a loop that was left alone.
-/

namespace Scriptlet

theorem state_bind_of_ok {ε σ α β : Type} {x : StateT σ (Except ε) α} {s s' : σ} {a : α}
    (h : x s = .ok (a, s')) (f : α -> StateT σ (Except ε) β) : (x >>= f) s = f a s' := by
  change (x s >>= fun answer => f answer.1 answer.2) = f a s'
  rw [h]
  rfl

namespace Fold

/-!
# Outside of loops
-/

section Outside

variable {mode : FoldMode} {enter : FunId -> Fold Unit}

theorem keeps_endLoop_outside (hmode : mode.constantOnly = false) (before : FoldState) (pos : Pos)
    (cond : Expr) (head : BlockHead) (body : List Stmt) (result : FoldedLoop) (s : FoldState) :
    Yields (endLoop mode before pos cond head body result) s fun r _ => r ≠ .giveUp := by
  have hfinish : forall (cond : Expr) (body : List Stmt) (t : FoldState),
      Yields (do
        forgetAssigned (Assigned.byStmts body)
        if cond.hasCall then
          forgetGlobals
        return FoldedStmt.keep (.whileDo pos cond head body)) t fun r _ => r ≠ .giveUp := by
    intro cond body t
    apply Ensures.modify_bind
    apply Ensures.ite
    · exact fun _ => nofun
    · exact fun _ => nofun
  apply Ensures.modify_bind
  cases result with
  | folded newCond newBody => exact hfinish newCond newBody _
  | neverEntered =>
      apply Ensures.modify_bind
      exact hfinish cond body _
  | gaveUp =>
      apply Ensures.ite
      · intro hinside
        rw [hmode] at hinside
        cases hinside
      · intro _
        apply Ensures.modify_bind
        exact hfinish cond body _

theorem folds_assigned (hmode : mode.constantOnly = false) (build : Expr -> Stmt) (id : VarId)
    (e : Expr) (s : FoldState) :
    Yields (do
      let x ← slot mode e
      if givesUp mode x then
        return FoldedStmt.giveUp
      else
        assign id x
        return .keep (build x.tree)) s fun r _ => r ≠ .giveUp := by
  apply Yields.skip
  intro x s₁
  apply Ensures.ite
  · intro hgives
    rw [givesUp, hmode] at hgives
    cases hgives
  · intro _
    apply Yields.skip
    intro _ s₂ hgives
    cases hgives

mutual

theorem folds_stmt (hmode : mode.constantOnly = false) : forall (st : Stmt) (s : FoldState),
    Yields (stmt mode enter st) s fun r _ => r ≠ .giveUp
  | .constDecl _ _, _ => nofun
  | .varDecl _ _ none, _ => nofun
  | .varDecl pos id (some init), s =>
      folds_assigned hmode (fun tree => .varDecl pos id (some tree)) id init s
  | .assign pos id value, s => folds_assigned hmode (.assign pos id) id value s
  | .funDecl pos f, s => by
      apply Yields.skip
      intro _ s₁
      apply Ensures.get_bind
      cases (s₁.program.function f).body with
      | none => exact nofun
      | some block =>
          apply Ensures.ite
          · exact fun _ => nofun
          · exact fun _ => nofun
  | .block head body, s => by
      apply (folds_stmts hmode body s).bind
      intro result s₁ hresult
      cases result with
      | none => exact absurd rfl hresult
      | some body' =>
          cases body' with
          | nil => exact nofun
          | cons first rest => exact nofun
  | .ifThen pos cond head body, s => by
      apply Yields.skip
      intro c s₁
      cases c.known with
      | none =>
          apply Ensures.ite
          · intro hinside
            rw [hmode] at hinside
            cases hinside
          · intro _
            apply (folds_stmts hmode body s₁).bind
            intro result s₂ hresult
            cases result with
            | none => exact absurd rfl hresult
            | some body' => exact nofun
      | some k =>
          obtain ⟨value, elidable⟩ := k
          cases value with
          | int n => trivial
          | float x => trivial
          | bool b =>
              cases b with
              | false => exact nofun
              | true =>
                  apply (folds_stmts hmode body s₁).bind
                  intro result s₂ hresult
                  cases result with
                  | none => exact absurd rfl hresult
                  | some body' => exact nofun
  | .whileDo pos cond head body, s => by
      have hend := keeps_endLoop_outside hmode s pos cond head body
      apply Ensures.get_bind
      apply Yields.skip
      intro c s₁
      cases c.known with
      | none => exact hend _ s₁
      | some k =>
          obtain ⟨value, elidable⟩ := k
          cases value with
          | int n => trivial
          | float x => trivial
          | bool b =>
              cases b with
              | false => exact hend _ s₁
              | true =>
                  apply Yields.skip
                  intro result s₂
                  cases result with
                  | none => exact hend _ s₂
                  | some body' => exact hend _ s₂
  | .ret pos value, s => by
      apply Yields.skip
      intro x s₁
      apply Ensures.ite
      · intro hgives
        rw [givesUp, hmode] at hgives
        cases hgives
      · intro _
        apply Yields.skip
        intro _ s₂
        exact nofun
  | .call pos f args, s => by
      apply Yields.skip
      intro xs s₁
      apply Yields.skip
      intro call s₂
      cases call with
      | none =>
          apply Ensures.ite
          · intro hinside
            rw [hmode] at hinside
            cases hinside
          · exact fun _ => nofun
      | some c =>
          apply Ensures.ite
          · exact fun _ => nofun
          · exact fun _ => nofun
  | .async pos target f args, s => by
      apply Ensures.ite
      · intro hinside
        rw [hmode] at hinside
        cases hinside
      · intro _
        apply Yields.skip
        intro trees s₁
        apply Ensures.modify_bind
        apply Ensures.get_bind
        apply Ensures.ite
        · exact fun _ => nofun
        · exact fun _ => nofun
  | .await pos target, s => by
      apply Ensures.ite
      · intro hinside
        rw [hmode] at hinside
        cases hinside
      · exact fun _ => nofun

theorem folds_stmts (hmode : mode.constantOnly = false) : forall (body : List Stmt) (s : FoldState),
    Yields (stmts mode enter body) s fun r _ => r ≠ none
  | [], _ => nofun
  | st :: rest, s => by
      apply (folds_stmt hmode st s).bind
      intro first s₁ hfirst
      cases first with
      | giveUp => exact absurd rfl hfirst
      | remove => exact folds_stmts hmode rest s₁
      | keep st' =>
          apply (folds_stmts hmode rest s₁).bind
          intro result s₂ hresult
          cases result with
          | none => exact absurd rfl hresult
          | some rest' => exact nofun

end

/-- The statements are folded in order, each in the state that the one before it leaves, and
what is left of them is kept in that order. -/
inductive EachFolded (mode : FoldMode) (enter : FunId -> Fold Unit) :
    List Stmt -> FoldState -> List Stmt -> FoldState -> Prop where
  | nil {s} : EachFolded mode enter [] s [] s
  | kept {st st' rest rest' s s₁ s₂} : stmt mode enter st s = .ok (.keep st', s₁) ->
      EachFolded mode enter rest s₁ rest' s₂ ->
      EachFolded mode enter (st :: rest) s (st' :: rest') s₂
  | removed {st rest rest' s s₁ s₂} : stmt mode enter st s = .ok (.remove, s₁) ->
      EachFolded mode enter rest s₁ rest' s₂ -> EachFolded mode enter (st :: rest) s rest' s₂

theorem eachFolded_stmts (hmode : mode.constantOnly = false) (body : List Stmt) :
    forall s : FoldState, Yields (stmts mode enter body) s fun r s' =>
      exists kept, r = some kept ∧ EachFolded mode enter body s kept s' := by
  induction body with
  | nil => exact fun s => ⟨[], rfl, .nil⟩
  | cons st rest ih =>
      intro s
      apply (folds_stmt hmode st s).remember.bind
      intro first s₁ hfirst
      rcases hfirst with ⟨hfolded, hfirst⟩
      cases first with
      | giveUp => exact absurd rfl hfirst
      | remove =>
          apply (ih s₁).mono
          rintro _ s₂ ⟨kept, rfl, hrest⟩
          exact ⟨kept, rfl, .removed hfolded hrest⟩
      | keep st' =>
          apply (ih s₁).bind
          rintro _ s₂ ⟨kept, rfl, hrest⟩
          exact ⟨st' :: kept, rfl, .kept hfolded hrest⟩

end Outside
end Fold

/-!
# Inside of loops
-/

namespace FoldPoint

def GivesUp (point : FoldPoint) : Prop :=
  match point.task with
  | .stmt st => exists s', Fold.stmt point.mode point.enter st point.state = .ok (.giveUp, s')
  | .stmts body => exists s', Fold.stmts point.mode point.enter body point.state = .ok (none, s')
  | _ => False

/-- From statements to those that are folded as a part of them.  Each step passes the tests
that the pass makes on the way. -/
inductive Inside : FoldPoint -> FoldPoint -> Prop where
  | first {mode depth st rest s} :
      Inside ⟨mode, depth, .stmts (st :: rest), s⟩ ⟨mode, depth, .stmt st, s⟩
  | next {mode depth st rest s r s'} :
      Fold.stmt mode (Fold.functionWithin mode.quota depth mode.folding) st s = .ok (r, s') ->
      r ≠ .giveUp -> Inside ⟨mode, depth, .stmts (st :: rest), s⟩ ⟨mode, depth, .stmts rest, s'⟩
  | block {mode depth head body s} :
      Inside ⟨mode, depth, .stmt (.block head body), s⟩ ⟨mode, depth, .stmts body, s⟩
  | branch {mode depth pos cond head body s c s' k} :
      Fold.slot mode cond s = .ok (c, s') -> c.known = some k -> k.value = .bool true ->
      Inside ⟨mode, depth, .stmt (.ifThen pos cond head body), s⟩ ⟨mode, depth, .stmts body, s'⟩
  | openBranch {mode : FoldMode} {depth pos cond head body s c s'} :
      Fold.slot mode cond s = .ok (c, s') -> c.known = none -> mode.constantOnly = false ->
      Inside ⟨mode, depth, .stmt (.ifThen pos cond head body), s⟩ ⟨mode, depth, .stmts body, s'⟩
  | loop {mode : FoldMode} {depth pos cond head body s c s' k} :
      Fold.slot { mode with constantOnly := true } cond s = .ok (c, s') -> c.known = some k ->
      k.value = .bool true ->
      Inside ⟨mode, depth, .stmt (.whileDo pos cond head body), s⟩
        ⟨{ mode with constantOnly := true }, depth, .stmts body, s'⟩

/-- From the declaration of a function to its body. -/
inductive Opens : FoldPoint -> FoldPoint -> Prop where
  | body {mode depth pos f s} :
      Opens ⟨mode, depth + 1, .stmt (.funDecl pos f), s⟩
        ⟨Fold.bodyMode mode.quota mode.folding f, depth, .stmts (s.program.bodyOf f),
          Fold.entered s f⟩

end FoldPoint

def Program.Visits (p : Program) (quota : Nat) (point : FoldPoint) : Prop :=
  Relation.ReflTransGen (fun a b => a.Inside b ∨ a.Opens b) (.start quota p) point

namespace Fold

section Loops

variable {mode : FoldMode} {enter : FunId -> Fold Unit} {pos : Pos} {cond : Expr}
  {head : BlockHead} {body : List Stmt} {s s₁ s₂ : FoldState} {c : FoldedExpr} {k : Known}

theorem stmt_ifThen_true (hcond : slot mode cond s = .ok (c, s₁)) (hknown : c.known = some k)
    (htrue : k.value = .bool true) (hbody : stmts mode enter body s₁ = .ok (none, s₂)) :
    stmt mode enter (.ifThen pos cond head body) s = .ok (.giveUp, s₂) := by
  obtain ⟨value, elidable⟩ := k
  subst htrue
  rw [stmt, state_bind_of_ok hcond]
  simp only [hknown]
  rw [state_bind_of_ok hbody]
  rfl

theorem stmt_whileDo_true (hcond : slot { mode with constantOnly := true } cond s = .ok (c, s₁))
    (hknown : c.known = some k) (htrue : k.value = .bool true)
    (hbody : stmts { mode with constantOnly := true } enter body s₁ = .ok (none, s₂)) :
    stmt mode enter (.whileDo pos cond head body) s =
      endLoop mode s pos cond head body .gaveUp s₂ := by
  obtain ⟨value, elidable⟩ := k
  subst htrue
  have hget : (get : Fold FoldState) s = .ok (s, s) := rfl
  rw [stmt, state_bind_of_ok hget, state_bind_of_ok hcond]
  simp only [hknown]
  rw [state_bind_of_ok hbody]

theorem endLoop_gaveUp_inside (hmode : mode.constantOnly = true) (before : FoldState) :
    endLoop mode before pos cond head body .gaveUp s =
      .ok (.giveUp, { s with known := before.known }) := by
  simp only [endLoop, hmode]
  rfl

def knownBehind (p : Program) (known : Valuation) (cond : Expr) (body : List Stmt) : Valuation :=
  let assigned := Assigned.byStmts body
  let kept := (if assigned.globals then forgetGlobalsIn p known else known).keep fun id =>
    !assigned.vars.contains id
  if cond.hasCall then forgetGlobalsIn p kept else kept

theorem endLoop_folded (before : FoldState) (newCond : Expr) (newBody : List Stmt) :
    endLoop mode before pos cond head body (.folded newCond newBody) s =
      .ok (.keep (.whileDo pos newCond head newBody),
        { s with known := knownBehind s.program before.known newCond newBody }) := by
  simp only [endLoop, knownBehind]
  cases newCond.hasCall <;> rfl

theorem endLoop_neverEntered (before : FoldState) :
    endLoop mode before pos cond head body .neverEntered s =
      .ok (.keep (.whileDo pos cond head body),
        { s with known := knownBehind s.program before.known cond body,
                 stats := before.stats }) := by
  simp only [endLoop, knownBehind]
  cases cond.hasCall <;> rfl

theorem endLoop_gaveUp_outside (hmode : mode.constantOnly = false) (before : FoldState) :
    endLoop mode before pos cond head body .gaveUp s =
      .ok (.keep (.whileDo pos cond head body),
        { s with known := knownBehind s.program before.known cond body,
                 stats := before.stats }) := by
  simp only [endLoop, knownBehind, hmode]
  cases cond.hasCall <;> rfl

end Loops
end Fold

namespace FoldPoint

variable {a b : FoldPoint}

theorem not_givesUp_outside (hmode : a.mode.constantOnly = false) : ¬a.GivesUp := by
  obtain ⟨mode, depth, task, s⟩ := a
  cases task with
  | stmt st =>
      rintro ⟨s', hgives⟩
      exact (Fold.folds_stmt hmode st s).of_ok hgives rfl
  | stmts body =>
      rintro ⟨s', hgives⟩
      exact (Fold.folds_stmts hmode body s).of_ok hgives rfl
  | arguments args => exact id
  | expr e => exact id

theorem Inside.givesUp (hinside : a.Inside b) (hmode : a.mode.constantOnly = true)
    (hb : b.GivesUp) : a.GivesUp := by
  cases hinside with
  | first =>
      rcases hb with ⟨s', hst⟩
      exact ⟨s', state_bind_of_ok hst _⟩
  | @next mode depth st rest s r s₁ hst hr =>
      rcases hb with ⟨s', hrest⟩
      refine ⟨s', (state_bind_of_ok hst _).trans ?_⟩
      cases r with
      | giveUp => exact absurd rfl hr
      | remove => exact hrest
      | keep st' => exact state_bind_of_ok hrest _
  | block =>
      rcases hb with ⟨s', hbody⟩
      exact ⟨s', state_bind_of_ok hbody _⟩
  | branch hcond hknown htrue =>
      rcases hb with ⟨s', hbody⟩
      exact ⟨s', Fold.stmt_ifThen_true hcond hknown htrue hbody⟩
  | openBranch _ _ hopen =>
      rw [hopen] at hmode
      cases hmode
  | @loop mode depth pos cond head body s c s₁ k hcond hknown htrue =>
      rcases hb with ⟨s', hbody⟩
      exact ⟨{ s' with known := s.known },
        (Fold.stmt_whileDo_true hcond hknown htrue hbody).trans
          (Fold.endLoop_gaveUp_inside hmode s)⟩

/-- A loop outside of loops whose body gives up is kept as it was. -/
theorem keeps_loop {mode : FoldMode} {depth : Nat} {pos : Pos} {cond : Expr} {head : BlockHead}
    {body : List Stmt} {s : FoldState}
    (hinside : Inside ⟨mode, depth, .stmt (.whileDo pos cond head body), s⟩ b)
    (hmode : mode.constantOnly = false) (hb : b.GivesUp) :
    exists s', Fold.stmt mode (Fold.functionWithin mode.quota depth mode.folding)
      (.whileDo pos cond head body) s = .ok (.keep (.whileDo pos cond head body), s') ∧
      s'.stats = s.stats := by
  cases hinside with
  | loop hcond hknown htrue =>
      rcases hb with ⟨s₂, hbody⟩
      exact ⟨_, (Fold.stmt_whileDo_true hcond hknown htrue hbody).trans
        (Fold.endLoop_gaveUp_outside hmode s), rfl⟩

end FoldPoint

/-!
# The pass over a program
-/

/-- A loop that stands in no other loop of its body, and the body of the loop. -/
structure Program.Loops (p : Program) (quota : Nat) (mode : FoldMode) (depth : Nat) (st : Stmt)
    (s : FoldState) (body : FoldPoint) : Prop where
  visited : p.Visits quota ⟨mode, depth, .stmt st, s⟩
  outermost : mode.constantOnly = false
  loop : exists pos cond head body, st = .whileDo pos cond head body
  enters : FoldPoint.Inside ⟨mode, depth, .stmt st, s⟩ body

theorem Program.Visits.in_loop {p : Program} {quota : Nat} {point : FoldPoint}
    (h : p.Visits quota point) (hmode : point.mode.constantOnly = true) :
    exists mode depth st s body, p.Loops quota mode depth st s body ∧
      Relation.ReflTransGen (fun a b => a.Inside b ∧ a.mode.constantOnly = true) body point := by
  induction h with
  | refl => cases hmode
  | @tail a b hvisits hstep ih =>
      have hinner : a.mode.constantOnly = true -> a.Inside b ->
          exists mode depth st s body, p.Loops quota mode depth st s body ∧
            Relation.ReflTransGen (fun a b => a.Inside b ∧ a.mode.constantOnly = true) body b := by
        intro ha hinside
        rcases ih ha with ⟨mode, depth, st, s, body, hloop, hpath⟩
        exact ⟨mode, depth, st, s, body, hloop, hpath.tail ⟨hinside, ha⟩⟩
      rcases hstep with hinside | hopens
      · cases hinside with
        | first => exact hinner hmode .first
        | next hst hr => exact hinner hmode (.next hst hr)
        | block => exact hinner hmode .block
        | branch hcond hknown htrue => exact hinner hmode (.branch hcond hknown htrue)
        | openBranch _ _ hopen =>
            rw [hopen] at hmode
            cases hmode
        | @loop mode depth pos cond head body s c s' k hcond hknown htrue =>
            cases ha : mode.constantOnly with
            | true => exact hinner ha (.loop hcond hknown htrue)
            | false =>
                exact ⟨mode, depth, _, s, _,
                  ⟨hvisits, ha, ⟨pos, cond, head, body, rfl⟩, .loop hcond hknown htrue⟩, .refl⟩
      · cases hopens with
        | body => cases hmode

/-- Giving up stays inside the loops of a program. -/
structure Program.ContainsGivingUp (p : Program) (quota : Nat) : Prop where
  /-- No statement gives up outside of loops. -/
  outside : forall point : FoldPoint, point.mode.constantOnly = false -> ¬point.GivesUp
  /-- Inside of loops everything around gives up too, as far as the outermost loop of the
  body, which is kept as it was. -/
  inside : forall point, p.Visits quota point -> point.GivesUp ->
    exists mode depth loop s body s', p.Loops quota mode depth loop s body ∧
      Relation.ReflTransGen (fun a b => a.Inside b ∧ a.GivesUp) body point ∧
      Fold.stmt mode (Fold.functionWithin mode.quota depth mode.folding) loop s =
        .ok (.keep loop, s') ∧ s'.stats = s.stats
  /-- Outside of loops each statement is folded, whatever came of the ones before it. -/
  statements : forall (mode : FoldMode) (enter : FunId -> Fold Unit) body s result s',
    mode.constantOnly = false -> Fold.stmts mode enter body s = .ok (result, s') ->
    exists kept, result = some kept ∧ Fold.EachFolded mode enter body s kept s'
  /-- The body of a function is never put back unfolded. -/
  functions : forall depth folding f s s',
    Fold.functionWithin quota (depth + 1) folding f s = .ok ((), s') ->
    exists kept s₁, Fold.stmts (Fold.bodyMode quota folding f)
        (Fold.functionWithin quota depth (f :: folding)) (s.program.bodyOf f) (Fold.entered s f) =
          .ok (some kept, s₁) ∧
      s' = { s₁ with program := Fold.withBody s₁.program f kept, known := s.known }
  /-- Nor are the statements of the outermost level. -/
  root : forall s kept s', Fold.root quota p s = .ok (kept, s') ->
    Fold.stmts { quota := quota, constantOnly := false, folding := [] }
      (Fold.functionWithin quota p.functions.length []) p.root s = .ok (some kept, s')

theorem givingUp_contained (p : Program) (quota : Nat) : p.ContainsGivingUp quota where
  outside := fun _ => FoldPoint.not_givesUp_outside
  inside := by
    intro point hvisits hgives
    have hmode : point.mode.constantOnly = true := by
      cases hmode : point.mode.constantOnly with
      | true => rfl
      | false => exact absurd hgives (FoldPoint.not_givesUp_outside hmode)
    rcases hvisits.in_loop hmode with ⟨mode, depth, st, s, body, hloop, hpath⟩
    -- From the point outwards, each piece gives up because the one inside of it does.
    have hout : body.GivesUp ∧
        Relation.ReflTransGen (fun a b => a.Inside b ∧ a.GivesUp) body point := by
      clear hloop
      induction hpath using Relation.ReflTransGen.head_induction_on with
      | refl => exact ⟨hgives, .refl⟩
      | head hstep _ ih =>
          have hup := hstep.1.givesUp hstep.2 ih.1
          exact ⟨hup, .head ⟨hstep.1, hup⟩ ih.2⟩
    rcases hloop.loop with ⟨pos, cond, head, inner, rfl⟩
    rcases FoldPoint.keeps_loop hloop.enters hloop.outermost hout.1 with ⟨s', hkept, hstats⟩
    exact ⟨mode, depth, _, s, body, s', hloop, hout.2, hkept, hstats⟩
  statements := fun _ _ body s _ _ hmode hdone =>
    (Fold.eachFolded_stmts hmode body s).of_ok hdone
  functions := by
    intro depth folding f s s' hdone
    have hbody := @Fold.eachFolded_stmts (Fold.bodyMode quota folding f)
      (Fold.functionWithin quota depth (f :: folding)) rfl (s.program.bodyOf f)
      (Fold.entered s f)
    have hpost : Yields (Fold.functionWithin quota (depth + 1) folding f) s fun _ s' =>
        exists kept s₁, Fold.stmts (Fold.bodyMode quota folding f)
          (Fold.functionWithin quota depth (f :: folding)) (s.program.bodyOf f)
            (Fold.entered s f) = .ok (some kept, s₁) ∧
          s' = { s₁ with program := Fold.withBody s₁.program f kept, known := s.known } := by
      apply Ensures.get_bind
      apply Ensures.set_bind
      apply hbody.remember.bind
      rintro _ s₁ ⟨hfolded, kept, rfl, _⟩
      exact ⟨kept, s₁, hfolded, rfl⟩
    exact hpost.of_ok hdone
  root := by
    intro s kept s' hdone
    have hpost : Yields (Fold.root quota p) s fun kept s' =>
        Fold.stmts { quota := quota, constantOnly := false, folding := [] }
          (Fold.functionWithin quota p.functions.length []) p.root s = .ok (some kept, s') := by
      apply (Fold.eachFolded_stmts rfl p.root s).remember.bind
      rintro _ s₁ ⟨hfolded, kept, rfl, _⟩
      exact hfolded
    exact hpost.of_ok hdone

section Spin

def spinProgram : Program where
  root := [.whileDo .endOfInput (.literal .endOfInput (.bool true))
    { scope := 1, pos := .endOfInput } [.assign .endOfInput 0 (.var .endOfInput 0)]]
  constants := []
  vars := [{ name := "x", type := .int, owner := none, slot := 0, default := some (.int 1) }]
  functions := []
  globalCount := 1
  globals := [.var 0]

theorem givingUp_contained_spin : exists point, spinProgram.Visits 5 point ∧ point.GivesUp ∧
    exists mode depth loop s body s', spinProgram.Loops 5 mode depth loop s body ∧
      Relation.ReflTransGen (fun a b => a.Inside b ∧ a.GivesUp) body point ∧
      Fold.stmt mode (Fold.functionWithin mode.quota depth mode.folding) loop s =
        .ok (.keep loop, s') ∧ s'.stats = s.stats := by
  have hloop : spinProgram.Visits 5 _ := .tail .refl (.inl .first)
  have hbody : spinProgram.Visits 5 _ := hloop.tail (.inl (.loop rfl rfl rfl))
  have hassign : exists point, spinProgram.Visits 5 point ∧ point.GivesUp :=
    ⟨_, hbody.tail (.inl .first), _, rfl⟩
  rcases hassign with ⟨point, hvisits, hgives⟩
  exact ⟨point, hvisits, hgives, (givingUp_contained spinProgram 5).inside point hvisits hgives⟩

end Spin

end Scriptlet
