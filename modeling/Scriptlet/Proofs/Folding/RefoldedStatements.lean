import Scriptlet.Proofs.Folding.RefoldedExpressions

/-!
# Statements that are folded again

The pass comes by the declarations in the order of their numbers.  Behind a place all bodies
are the original ones, and the bodies before it are never touched again, so whatever the pass
made of a statement stays as it is when the statement is folded again in the end.
-/

namespace Scriptlet

/-!
# Places in the text
-/

theorem admitted_plain {ms : List Mention} (h : forall f, .declareFunction f ∉ ms) :
    Admitted (fun m => m.function? = none) ms := by
  intro m hm
  cases hfunction : m.function? with
  | none => rfl
  | some f => exact absurd (Mention.function?_eq_some.mp hfunction ▸ hm) (h f)

theorem Expr.plain (e : Expr) : Admitted (fun m => m.function? = none) e.mentions :=
  admitted_plain fun f => e.declares_no_function f

theorem Expr.list_plain (args : List Expr) :
    Admitted (fun m => m.function? = none) (Expr.listMentions args) :=
  admitted_plain fun f => list_declares_no_function f args

namespace Program

variable {p q r r' : Program} {n m k : Nat} {ms : List Mention}

theorem Numbers.guarded {cond : Expr} (h : p.Numbers n (cond.mentions ++ ms) k) :
    Admitted (Mention.CallsBelow n) cond.mentions ∧ p.Numbers n ms k := by
  rcases h.split with ⟨mid, hcond, hbody⟩
  rcases hcond.of_plain cond.plain with ⟨rfl, hcalls⟩
  exact ⟨hcalls, hbody⟩

/-- The pass over the program is at a place with so many declarations before it: no body of
these calls a function that is declared behind, and the bodies behind are the original ones. -/
structure FoldedTo (p : Program) (n : Nat) (q : Program) : Prop where
  shell : p.SameShell q
  sound : q.Sound
  calls : q.CallsBelow n
  ahead : forall f, n ≤ f -> q.bodyOf f = p.bodyOf f

theorem FoldedTo.skip (h : p.FoldedTo n q) (hnumbers : p.Numbers n ms k) : p.FoldedTo k q where
  shell := h.shell
  sound := h.sound
  calls := by
    intro f hf
    rcases Nat.lt_or_ge f n with hold | hnew
    · exact fun m hm => (h.calls f hold m hm).mono hnumbers.le
    · rw [mentionsOf, h.ahead f hnew]
      exact hnumbers.callsBelow_body hnew hf
  ahead := fun f hf => h.ahead f (Nat.le_trans hnumbers.le hf)

/-- The pass went on to a place behind, and left the bodies before the first one alone. -/
structure FoldsOn (p : Program) (n k : Nat) (q r : Program) : Prop where
  folded : p.FoldedTo k r
  same : q.SameBelow n r
  le : n ≤ k

theorem FoldedTo.stay (h : p.FoldedTo n q) : p.FoldsOn n n q q :=
  ⟨h, .refl n q, Nat.le_refl n⟩

theorem FoldsOn.trans (h : p.FoldsOn n m q r) (h' : p.FoldsOn m k r r') : p.FoldsOn n k q r' :=
  ⟨h'.folded, h.same.trans (h'.same.mono h.le), Nat.le_trans h.le h'.le⟩

theorem FoldsOn.skip (h : p.FoldsOn n m q r) (hnumbers : p.Numbers m ms k) :
    p.FoldsOn n k q r :=
  ⟨h.folded.skip hnumbers, h.same, Nat.le_trans h.le hnumbers.le⟩

end Program

namespace Fold

section Statements

variable {p : Program} {n k : Nat} {s s' : FoldState} {mode : FoldMode}
  {enter : FunId -> Fold Unit}

/-!
# What is left of statements
-/

/-- What is kept of a statement is folded again to the same.  What is removed has changed
nothing that is known. -/
def LeftStill (mode : FoldMode) (enter : FunId -> Fold Unit) (n : Nat) (q : Program)
    (before : Valuation) : FoldedStmt -> Valuation -> Prop
  | .keep st, after => Answers True n q (stmt mode enter st) before (.keep st) after
  | .remove, after => after = before
  | .giveUp, _ => True

def ListStill (mode : FoldMode) (enter : FunId -> Fold Unit) (n : Nat) (q : Program)
    (before : Valuation) : Option (List Stmt) -> Valuation -> Prop
  | some kept, after => Answers True n q (stmts mode enter kept) before (some kept) after
  | none, _ => True

/-- The statement is folded again to the same, and so is what is left of it. -/
structure StmtRefolds (p : Program) (mode : FoldMode) (enter : FunId -> Fold Unit) (n k : Nat)
    (st : Stmt) (s : FoldState) (r : FoldedStmt) (s' : FoldState) : Prop where
  on : p.FoldsOn n k s.program s'.program
  again : Answers False k s'.program (stmt mode enter st) s.known r s'.known
  still : LeftStill mode enter k s'.program s.known r s'.known

structure ListRefolds (p : Program) (mode : FoldMode) (enter : FunId -> Fold Unit) (n k : Nat)
    (body : List Stmt) (s : FoldState) (r : Option (List Stmt)) (s' : FoldState) : Prop where
  on : p.FoldsOn n k s.program s'.program
  again : Answers False k s'.program (stmts mode enter body) s.known r s'.known
  still : ListStill mode enter k s'.program s.known r s'.known

theorem ListRefolds.idle {body : List Stmt}
    (h : ListRefolds p mode enter n k body s (some []) s') : s'.known = s.known := by
  have hdone : stmts mode enter [] { s' with known := s.known } =
      .ok (some [], { s' with known := s.known }) := rfl
  exact (h.still.of_ok (s := { s' with known := s.known }) (.refl k s'.program)
    hdone).2.1.symm

theorem refolds_leaf {st : Stmt} (hs : p.FoldedTo n s.program)
    (hagain : Repeatable False n s.program (stmt mode enter st))
    (hleft : Yields (stmt mode enter st) s fun r s' =>
      LeftStill mode enter n s.program s.known r s'.known) :
    Yields (stmt mode enter st) s (StmtRefolds p mode enter n n st s) := by
  apply ((hagain.yields (.refl n s.program)).and hleft).mono
  rintro r s' ⟨⟨hprogram, hagain⟩, hstill⟩
  rw [← hprogram] at hagain hstill
  refine ⟨?_, hagain, hstill⟩
  rw [hprogram]
  exact hs.stay

theorem refolds_slot (hs : p.FoldedTo n s.program) (build : Expr -> Stmt)
    {step : FoldedExpr -> Fold Unit}
    (hbuild : forall e, stmt mode enter (build e) = do
      let x ← slot mode e
      if givesUp mode x then
        return FoldedStmt.giveUp
      else
        step x
        return .keep (build x.tree))
    (hstep : forall (quiet : Prop) x, Repeatable quiet n s.program (step x)) {e : Expr}
    (he : Admitted (Mention.CallsBelow n) e.mentions) :
    Yields (stmt mode enter (build e)) s (StmtRefolds p mode enter n n (build e) s) := by
  apply refolds_leaf hs
  · rw [hbuild]
    apply (repeatable_slot hs.calls mode e he).bind
    intro x
    apply repeatable_ite
    · exact repeatable_pure _
    · exact (hstep False x).bind fun _ => repeatable_pure _
  · rw [hbuild]
    apply (still_slot hs.calls mode e hs.sound (.refl n s.program) he).bind
    rintro x s₁ ⟨hprogram, hx⟩
    apply Ensures.ite
    · exact fun _ => trivial
    · intro hknown
      apply (hstep True x s₁ (hprogram ▸ .refl n s.program)).bind
      intro _ s₂ hstepped
      show Answers True n s.program (stmt mode enter (build x.tree)) _ _ _
      rw [hbuild]
      refine hx.bind ?_
      rw [if_neg hknown]
      exact hstepped.bind (answers_pure _ _)

theorem refolds_callStmt (hs : p.FoldedTo n s.program) (pos : Pos) (f : FunId) (args : List Expr)
    (hcalls : Admitted (Mention.CallsBelow n) (Stmt.call pos f args).mentions) :
    Yields (stmt mode enter (.call pos f args)) s
      (StmtRefolds p mode enter n n (.call pos f args) s) := by
  have hf : f < n := hcalls.head f rfl
  apply refolds_leaf hs
  · apply (repeatable_arguments hs.calls mode args hcalls.tail).bind
    intro xs
    apply (repeatable_callWith hs.calls hf pos xs).bind
    intro call
    cases call with
    | none => exact repeatable_ite (repeatable_pure _) (repeatable_pure _)
    | some c =>
        apply repeatable_ite
        · exact (repeatable_count _).bind fun _ => repeatable_pure _
        · exact repeatable_pure _
  · have hargs := (still_arguments hs.calls mode args hs.sound (.refl n s.program) hcalls.tail).and
      (yields_arguments mode args hs.sound)
    apply hargs.bind
    rintro xs s₁ ⟨hxs, hfolded⟩
    have hs₁ : s.program.SameBelow n s₁.program := hfolded.program ▸ .refl n s.program
    have hrepeats : Repeatable True n s.program (callWith mode pos f xs) :=
      repeatable_callWith hs.calls hf pos xs
    apply ((hrepeats s₁ hs₁).and (yields_callWith (hfolded.program ▸ hs.sound) pos f xs)).bind
    rintro call s₂ ⟨hcall, hcalled⟩
    cases call with
    | none =>
        apply Ensures.ite
        · exact fun _ => trivial
        · intro hmode
          refine hxs.bind (hcall.bind ?_)
          show Answers True n s.program (if _ then _ else _) _ _ _
          rw [if_neg hmode]
          exact answers_pure _ _
    | some c =>
        apply Ensures.ite
        · intro helidable
          rcases hcalled.sound c rfl helidable with ⟨hknown, hargs, -, values, hvalues, -⟩
          exact hknown.trans (hfolded.sound values hvalues hargs).1
        · intro hstays
          refine hxs.bind (hcall.bind ?_)
          show Answers True n s.program (if _ then _ else _) _ _ _
          rw [if_neg hstays]
          exact answers_pure _ _

def forgetStarted (target : VarId) (f : FunId) : Fold Unit := do
  forget target
  if !((← program).function f).isNative then
    forgetGlobals

theorem stmt_async (mode : FoldMode) (enter : FunId -> Fold Unit) (pos : Pos) (target : VarId)
    (f : FunId) (args : List Expr) :
    stmt mode enter (.async pos target f args) =
      if mode.constantOnly then return .giveUp
      else do
        let trees ← asyncArguments mode args
        forgetStarted target f
        return .keep (.async pos target f trees) := by
  rw [stmt, asyncStmt]
  congr 1
  apply bind_congr
  intro trees
  rw [forgetStarted, bind_assoc]
  apply bind_congr
  intro _
  rw [bind_assoc]
  apply bind_congr
  intro q
  cases (q.function f).isNative <;> rfl

theorem repeatable_forgetStarted {quiet : Prop} {q : Program} (target : VarId) (f : FunId) :
    Repeatable quiet n q (forgetStarted target f) := by
  apply (repeatable_forget target).bind
  intro _
  apply repeatable_program
  · intro r hr
    simp only [hr.isNative]
  · exact repeatable_ite repeatable_forgetGlobals (repeatable_pure _)

theorem refolds_asyncStmt (hs : p.FoldedTo n s.program) (pos : Pos) (target : VarId) (f : FunId)
    (args : List Expr)
    (hcalls : Admitted (Mention.CallsBelow n) (Expr.listMentions args)) :
    Yields (stmt mode enter (.async pos target f args)) s
      (StmtRefolds p mode enter n n (.async pos target f args) s) := by
  apply refolds_leaf hs
  · rw [stmt_async]
    apply repeatable_ite
    · exact repeatable_pure _
    · apply (repeatable_asyncArguments hs.calls mode args hcalls).bind
      intro trees
      exact (repeatable_forgetStarted target f).bind fun _ => repeatable_pure _
  · rw [stmt_async]
    apply Ensures.ite
    · exact fun _ => trivial
    · intro hmode
      apply ((still_asyncArguments hs.calls mode args hs.sound (.refl n s.program) hcalls).and
        (yields_asyncArguments args hs.sound)).bind
      rintro trees s₁ ⟨htrees, hprogram⟩
      have hstarts : Repeatable True n s.program (forgetStarted target f) :=
        repeatable_forgetStarted target f
      apply (hstarts s₁ (hprogram ▸ .refl n s.program)).bind
      intro _ s₂ hstarted
      show Answers True n s.program (stmt mode enter (.async pos target f trees)) _ _ _
      rw [stmt_async, if_neg hmode]
      exact htrees.bind (hstarted.bind (answers_pure _ _))

theorem refolds_awaitStmt (hs : p.FoldedTo n s.program) (pos : Pos) (target : VarId) :
    Yields (stmt mode enter (.await pos target)) s
      (StmtRefolds p mode enter n n (.await pos target) s) := by
  have hrepeats : forall quiet : Prop,
      Repeatable quiet n s.program (stmt mode enter (.await pos target)) := by
    intro quiet
    apply repeatable_ite
    · exact repeatable_pure _
    · apply (repeatable_forget target).bind
      intro _
      exact repeatable_forgetGlobals.bind fun _ => repeatable_pure _
  apply refolds_leaf hs (hrepeats False)
  have hkept : Yields (stmt mode enter (.await pos target)) s fun r _ =>
      r = .giveUp ∨ r = .keep (.await pos target) := by
    apply Ensures.ite
    · exact fun _ => .inl rfl
    · exact fun _ => .inr rfl
  apply ((hrepeats True s (.refl n s.program)).and hkept).mono
  rintro r s' ⟨hagain, hr⟩
  rcases hr with rfl | rfl
  · trivial
  · exact hagain

/-!
# Functions
-/

structure EntersAgain (p : Program) (enter : FunId -> Fold Unit) (n k : Nat) (s s' : FoldState) :
    Prop where
  on : p.FoldsOn n k s.program s'.program
  known : s'.known = s.known
  again : forall t : FoldState, s'.program.SameBelow k t.program -> enter n t = .ok ((), t)

def EntersInOrder (p : Program) (enter : FunId -> Fold Unit) (folding : List FunId) : Prop :=
  forall (n k : Nat) (s : FoldState), p.FoldedTo n s.program -> (forall f, f ∈ folding -> f < n) ->
    p.Numbers (n + 1) (p.mentionsOf n) k -> Yields (enter n) s fun _ s' =>
      EntersAgain p enter n k s s'

def declarationLeft (pos : Pos) (f : FunId) (p : Program) : Fold FoldedStmt :=
  match (p.function f).body with
  | some block =>
      if block.body.isEmpty then do
        count .addRemoved
        return .remove
      else return .keep (.funDecl pos f)
  | none => return .keep (.funDecl pos f)

theorem stmt_funDecl (mode : FoldMode) (enter : FunId -> Fold Unit) (pos : Pos) (f : FunId) :
    stmt mode enter (.funDecl pos f) = (do
      enter f
      declarationLeft pos f (← program)) :=
  rfl

theorem refolds_funDecl (henter : EntersInOrder p enter mode.folding)
    (hs : p.FoldedTo n s.program) (hopen : forall f, f ∈ mode.folding -> f < n) (pos : Pos)
    (hbody : p.Numbers (n + 1) (p.mentionsOf n) k) :
    Yields (stmt mode enter (.funDecl pos n)) s
      (StmtRefolds p mode enter n k (.funDecl pos n) s) := by
  rw [stmt_funDecl]
  apply (henter n k s hs hopen hbody).bind
  intro _ s₁ hentered
  have hn : n < k := hbody.le
  -- All programs in question have the same body of the function.
  have hfun : forall (quiet : Prop) (r : FoldedStmt),
      Answers quiet k s₁.program (declarationLeft pos n s₁.program) s₁.known r s₁.known ->
      Answers quiet k s₁.program (stmt mode enter (.funDecl pos n)) s.known r s₁.known := by
    intro quiet r h
    have hagain : Answers quiet k s₁.program (enter n) s.known () s₁.known := by
      rintro t hknown ht
      refine ⟨t.stats, ?_, fun _ => rfl⟩
      rw [hentered.again t ht, hentered.known, ← hknown]
    rw [stmt_funDecl]
    refine hagain.bind (answers_program ?_ h)
    intro q hq
    simp only [declarationLeft, hq.function hn]
  have hkept : declarationLeft pos n s₁.program = pure (.keep (.funDecl pos n)) ->
      Yields (declarationLeft pos n s₁.program) s₁
        (StmtRefolds p mode enter n k (.funDecl pos n) s) := by
    intro hleft
    have hanswers : forall quiet : Prop, Answers quiet k s₁.program
        (stmt mode enter (.funDecl pos n)) s.known (.keep (.funDecl pos n)) s₁.known :=
      fun quiet => hfun quiet _ (hleft ▸ answers_pure _ _)
    rw [hleft]
    exact ⟨hentered.on, hanswers False, hanswers True⟩
  apply Ensures.get_bind
  cases hblock : (s₁.program.function n).body with
  | none => exact hkept (by simp only [declarationLeft, hblock])
  | some block =>
      cases hempty : block.body.isEmpty with
      | false => exact hkept (by simp [declarationLeft, hblock, hempty])
      | true =>
          have hleft : declarationLeft pos n s₁.program = (do
              count .addRemoved
              return .remove) := by
            simp only [declarationLeft, hblock, hempty, if_true]
          have hanswers := hfun False .remove
          rw [hleft] at hanswers ⊢
          exact ⟨hentered.on, hanswers ((answers_count _ _).bind (answers_pure _ _)),
            hentered.known⟩

/-!
# Blocks and branches
-/

theorem refolds_block {head : BlockHead} {body : List Stmt}
    (hbody : Yields (stmts mode enter body) s (ListRefolds p mode enter n k body s)) :
    Yields (stmt mode enter (.block head body)) s
      (StmtRefolds p mode enter n k (.block head body) s) := by
  apply hbody.bind
  intro result s₁ hrefolds
  cases result with
  | none => exact ⟨hrefolds.on, hrefolds.again.bind (answers_pure _ _), trivial⟩
  | some kept =>
      cases kept with
      | nil =>
          refine ⟨hrefolds.on, ?_, hrefolds.idle⟩
          exact hrefolds.again.bind ((answers_count _ _).bind (answers_pure _ _))
      | cons first rest =>
          exact ⟨hrefolds.on, hrefolds.again.bind (answers_pure _ _),
            Answers.bind hrefolds.still (answers_pure _ _)⟩

/-- A condition is folded again to the same, however far the pass has gone on behind it. -/
structure CondRefolds (p : Program) (mode : FoldMode) (n : Nat) (cond : Expr) (s : FoldState)
    (c : FoldedExpr) (s' : FoldState) : Prop where
  program : s'.program = s.program
  again : forall {k r}, p.FoldsOn n k s.program r ->
    Answers False k r (slot mode cond) s.known c s'.known
  still : forall {k r}, p.FoldsOn n k s.program r ->
    Answers True k r (slot mode c.tree) s.known c s'.known

theorem refolds_condition (hs : p.FoldedTo n s.program) (mode : FoldMode) {cond : Expr}
    (hcond : Admitted (Mention.CallsBelow n) cond.mentions) :
    Yields (slot mode cond) s (CondRefolds p mode n cond s) := by
  have hrefl := Program.SameBelow.refl n s.program
  apply ((repeatable_slot hs.calls mode cond hcond s hrefl).and
    (still_slot hs.calls mode cond hs.sound hrefl hcond)).mono
  rintro c s₁ ⟨hagain, hprogram, hstill⟩
  exact ⟨hprogram, fun hon => hagain.mono hon.le hon.same, fun hon => hstill.mono hon.le hon.same⟩

section Branches

variable {quiet : Prop} {q : Program} {pos : Pos} {cond : Expr} {head : BlockHead}
  {body kept : List Stmt} {c : FoldedExpr} {u v w w' : Valuation}

theorem answers_ifThen_unknown (hmode : mode.constantOnly = false)
    (hcond : Answers quiet n q (slot mode cond) u c v) (hknown : c.known = none)
    (hbody : Answers quiet n q (stmts mode enter body) v (some kept) w)
    (hforget : Answers quiet n q (forgetAssigned (Assigned.byStmts kept)) w () w') :
    Answers quiet n q (stmt mode enter (.ifThen pos cond head body)) u
      (.keep (.ifThen pos c.tree head kept)) w' := by
  refine hcond.bind ?_
  simp only [hknown, hmode]
  exact hbody.bind (hforget.bind (answers_pure _ _))

theorem answers_ifThen_true {k : Known} (hcond : Answers quiet n q (slot mode cond) u c v)
    (hknown : c.known = some k) (htrue : k.value = .bool true)
    (hbody : Answers quiet n q (stmts mode enter body) v (some kept) w) :
    Answers quiet n q (stmt mode enter (.ifThen pos cond head body)) u
      (.keep (.ifThen pos c.tree head kept)) w := by
  obtain ⟨value, elidable⟩ := k
  subst htrue
  refine hcond.bind ?_
  simp only [hknown]
  exact hbody.bind (answers_pure _ _)

theorem answers_ifThen_false {k : Known} (hcond : Answers quiet n q (slot mode cond) u c v)
    (hknown : c.known = some k) (hfalse : k.value = .bool false) :
    Answers quiet n q (stmt mode enter (.ifThen pos cond head body)) u
      (.keep (.ifThen pos c.tree head body)) v := by
  obtain ⟨value, elidable⟩ := k
  subst hfalse
  refine hcond.bind ?_
  simp only [hknown]
  exact answers_pure _ _

end Branches

theorem refolds_ifThen (hs : p.FoldedTo n s.program) {pos : Pos} {cond : Expr} {head : BlockHead}
    {body : List Stmt} (hcond : Admitted (Mention.CallsBelow n) cond.mentions)
    (hnumbers : p.Numbers n (Stmt.listMentions body) k)
    (hbody : forall s₁ : FoldState, s₁.program = s.program ->
      Yields (stmts mode enter body) s₁ (ListRefolds p mode enter n k body s₁)) :
    Yields (stmt mode enter (.ifThen pos cond head body)) s
      (StmtRefolds p mode enter n k (.ifThen pos cond head body) s) := by
  apply (refolds_condition hs mode hcond).bind
  intro c s₁ hc
  -- The body is skipped, or folded in this state.
  have hskipped : p.FoldsOn n k s.program s₁.program := by
    rw [hc.program]
    exact hs.stay.skip hnumbers
  cases hknown : c.known with
  | none =>
      apply Ensures.ite
      · intro hmode
        refine ⟨hskipped, (hc.again hskipped).bind ?_, trivial⟩
        simp only [hknown, hmode]
        exact answers_pure _ _
      · intro hmode
        have hmode : mode.constantOnly = false := Bool.eq_false_iff.mpr hmode
        apply (hbody s₁ hc.program).bind
        intro result s₂ hrefolds
        have hon : p.FoldsOn n k s.program s₂.program := hc.program ▸ hrefolds.on
        cases result with
        | none =>
            refine ⟨hon, (hc.again hon).bind ?_, trivial⟩
            simp only [hknown, hmode]
            exact hrefolds.again.bind (answers_pure _ _)
        | some kept =>
            have hforgets : Repeatable True k s₂.program
                (forgetAssigned (Assigned.byStmts kept)) := repeatable_forgetAssigned _
            apply (hforgets.yields (.refl k s₂.program)).bind
            rintro _ s₃ ⟨hsame, hforgotten⟩
            rw [← hsame] at hon hforgotten
            have hbodies := hrefolds.again
            have hstays := hrefolds.still
            rw [← hsame] at hbodies hstays
            exact ⟨hon,
              answers_ifThen_unknown hmode (hc.again hon) hknown hbodies hforgotten.of_quiet,
              answers_ifThen_unknown hmode (hc.still hon) hknown hstays hforgotten⟩
  | some known =>
      obtain ⟨value, elidable⟩ := known
      cases value with
      | int n => trivial
      | float x => trivial
      | bool b =>
          cases b with
          | false =>
              exact ⟨hskipped, answers_ifThen_false (hc.again hskipped) hknown rfl,
                answers_ifThen_false (hc.still hskipped) hknown rfl⟩
          | true =>
              apply (hbody s₁ hc.program).bind
              intro result s₂ hrefolds
              have hon : p.FoldsOn n k s.program s₂.program := hc.program ▸ hrefolds.on
              cases result with
              | none =>
                  refine ⟨hon, (hc.again hon).bind ?_, trivial⟩
                  simp only [hknown]
                  exact hrefolds.again.bind (answers_pure _ _)
              | some kept =>
                  exact ⟨hon, answers_ifThen_true (hc.again hon) hknown rfl hrefolds.again,
                    answers_ifThen_true (hc.still hon) hknown rfl hrefolds.still⟩

/-!
# Loops
-/

def foldCopy (mode : FoldMode) (enter : FunId -> Fold Unit) (cond : Expr) (body : List Stmt) :
    Fold FoldedLoop := do
  let inner := { mode with constantOnly := true }
  let c ← slot inner cond
  match c.known with
  | none => return .gaveUp
  | some { value := .bool false, .. } => return .neverEntered
  | some { value := .bool true, .. } =>
      match ← stmts inner enter body with
      | none => return .gaveUp
      | some newBody => return .folded c.tree newBody
  | some k => mismatch .whileCondition .bool k.value.type cond.pos

theorem stmt_whileDo (mode : FoldMode) (enter : FunId -> Fold Unit) (pos : Pos) (cond : Expr)
    (head : BlockHead) (body : List Stmt) :
    stmt mode enter (.whileDo pos cond head body) = (do
      let before ← get
      let result ← foldCopy mode enter cond body
      endLoop mode before pos cond head body result) := by
  rw [stmt]
  apply bind_congr
  intro before
  rw [foldCopy, bind_assoc]
  apply bind_congr
  intro c
  cases c.known with
  | none => rfl
  | some k =>
      obtain ⟨value, elidable⟩ := k
      cases value with
      | int n => rfl
      | float x => rfl
      | bool b =>
          cases b with
          | false => rfl
          | true =>
              simp only [bind_assoc]
              apply bind_congr
              intro result
              cases result <;> rfl

section Loops

variable {quiet : Prop} {q : Program} {pos : Pos} {cond : Expr} {head : BlockHead}
  {body : List Stmt} {u v : Valuation}

theorem knownBehind_congr {r : Program} (h : q.SameBelow n r) (known : Valuation) (cond : Expr)
    (body : List Stmt) : knownBehind r known cond body = knownBehind q known cond body := by
  simp only [knownBehind, h.forgetGlobalsIn]

theorem answers_whileDo_folded {newCond : Expr} {newBody : List Stmt}
    (hcopy : Answers quiet n q (foldCopy mode enter cond body) u (.folded newCond newBody) v) :
    Answers quiet n q (stmt mode enter (.whileDo pos cond head body)) u
      (.keep (.whileDo pos newCond head newBody)) (knownBehind q u newCond newBody) := by
  rintro t rfl ht
  rcases hcopy t rfl ht with ⟨stats, hcopied, hquiet⟩
  have hget : (get : Fold FoldState) t = .ok (t, t) := rfl
  refine ⟨stats, ?_, hquiet⟩
  rw [stmt_whileDo, state_bind_of_ok hget, state_bind_of_ok hcopied, endLoop_folded,
    knownBehind_congr ht]

theorem answers_whileDo_kept {result : FoldedLoop}
    (hresult : result = .neverEntered ∨ result = .gaveUp ∧ mode.constantOnly = false)
    (hcopy : Answers False n q (foldCopy mode enter cond body) u result v) :
    Answers quiet n q (stmt mode enter (.whileDo pos cond head body)) u
      (.keep (.whileDo pos cond head body)) (knownBehind q u cond body) := by
  rintro t rfl ht
  rcases hcopy t rfl ht with ⟨stats, hcopied, -⟩
  have hget : (get : Fold FoldState) t = .ok (t, t) := rfl
  refine ⟨t.stats, ?_, fun _ => rfl⟩
  rw [stmt_whileDo, state_bind_of_ok hget, state_bind_of_ok hcopied]
  rcases hresult with rfl | ⟨rfl, hmode⟩
  · rw [endLoop_neverEntered, knownBehind_congr ht]
  · rw [endLoop_gaveUp_outside hmode, knownBehind_congr ht]

theorem answers_whileDo_gaveUp (hmode : mode.constantOnly = true)
    (hcopy : Answers False n q (foldCopy mode enter cond body) u .gaveUp v) :
    Answers False n q (stmt mode enter (.whileDo pos cond head body)) u .giveUp u := by
  rintro t rfl ht
  rcases hcopy t rfl ht with ⟨stats, hcopied, -⟩
  have hget : (get : Fold FoldState) t = .ok (t, t) := rfl
  refine ⟨stats, ?_, False.elim⟩
  rw [stmt_whileDo, state_bind_of_ok hget, state_bind_of_ok hcopied, endLoop_gaveUp_inside hmode]

def CopyStill (mode : FoldMode) (enter : FunId -> Fold Unit) (n : Nat) (q : Program)
    (before : Valuation) : FoldedLoop -> Valuation -> Prop
  | .folded cond body, after =>
      Answers True n q (foldCopy mode enter cond body) before (.folded cond body) after
  | _, _ => True

structure CopyRefolds (p : Program) (mode : FoldMode) (enter : FunId -> Fold Unit) (n k : Nat)
    (cond : Expr) (body : List Stmt) (s : FoldState) (result : FoldedLoop) (s' : FoldState) :
    Prop where
  on : p.FoldsOn n k s.program s'.program
  again : Answers False k s'.program (foldCopy mode enter cond body) s.known result s'.known
  still : CopyStill mode enter k s'.program s.known result s'.known

theorem refolds_whileDo
    (hcopy : Yields (foldCopy mode enter cond body) s (CopyRefolds p mode enter n k cond body s)) :
    Yields (stmt mode enter (.whileDo pos cond head body)) s
      (StmtRefolds p mode enter n k (.whileDo pos cond head body) s) := by
  rw [stmt_whileDo]
  apply Ensures.get_bind
  apply hcopy.bind
  intro result s₁ hrefolds
  have hkept : forall t : FoldState, t.program = s₁.program ->
      t.known = knownBehind s₁.program s.known cond body ->
      result = .neverEntered ∨ result = .gaveUp ∧ mode.constantOnly = false ->
      StmtRefolds p mode enter n k (.whileDo pos cond head body) s
        (.keep (.whileDo pos cond head body)) t := by
    intro t hprogram hknown hresult
    have hanswers : forall quiet : Prop, Answers quiet k t.program
        (stmt mode enter (.whileDo pos cond head body)) s.known
        (.keep (.whileDo pos cond head body)) t.known := by
      intro quiet
      rw [hprogram, hknown]
      exact answers_whileDo_kept hresult hrefolds.again
    exact ⟨hprogram ▸ hrefolds.on, hanswers False, hanswers True⟩
  cases result with
  | folded newCond newBody =>
      rw [Ensures, endLoop_folded]
      exact ⟨hrefolds.on, answers_whileDo_folded hrefolds.again,
        answers_whileDo_folded hrefolds.still⟩
  | neverEntered =>
      rw [Ensures, endLoop_neverEntered]
      exact hkept _ rfl rfl (.inl rfl)
  | gaveUp =>
      cases hmode : mode.constantOnly with
      | true =>
          rw [Ensures, endLoop_gaveUp_inside hmode]
          exact ⟨hrefolds.on, answers_whileDo_gaveUp hmode hrefolds.again, trivial⟩
      | false =>
          rw [Ensures, endLoop_gaveUp_outside hmode]
          exact hkept _ rfl rfl (.inr ⟨rfl, hmode⟩)

theorem refolds_foldCopy (hs : p.FoldedTo n s.program)
    (hcond : Admitted (Mention.CallsBelow n) cond.mentions)
    (hnumbers : p.Numbers n (Stmt.listMentions body) k)
    (hbody : forall s₁ : FoldState, s₁.program = s.program ->
      Yields (stmts { mode with constantOnly := true } enter body) s₁
        (ListRefolds p { mode with constantOnly := true } enter n k body s₁)) :
    Yields (foldCopy mode enter cond body) s (CopyRefolds p mode enter n k cond body s) := by
  apply (refolds_condition hs _ hcond).bind
  intro c s₁ hc
  have hskipped : p.FoldsOn n k s.program s₁.program := by
    rw [hc.program]
    exact hs.stay.skip hnumbers
  cases hknown : c.known with
  | none =>
      refine ⟨hskipped, (hc.again hskipped).bind ?_, trivial⟩
      simp only [hknown]
      exact answers_pure _ _
  | some known =>
      obtain ⟨value, elidable⟩ := known
      cases value with
      | int n => trivial
      | float x => trivial
      | bool b =>
          cases b with
          | false =>
              refine ⟨hskipped, (hc.again hskipped).bind ?_, trivial⟩
              simp only [hknown]
              exact answers_pure _ _
          | true =>
              apply (hbody s₁ hc.program).bind
              intro result s₂ hrefolds
              have hon : p.FoldsOn n k s.program s₂.program := hc.program ▸ hrefolds.on
              cases result with
              | none =>
                  refine ⟨hon, (hc.again hon).bind ?_, trivial⟩
                  simp only [hknown]
                  exact hrefolds.again.bind (answers_pure _ _)
              | some kept =>
                  refine ⟨hon, (hc.again hon).bind ?_, ?_⟩
                  · simp only [hknown]
                    exact hrefolds.again.bind (answers_pure _ _)
                  · refine (hc.still hon).bind ?_
                    simp only [hknown]
                    exact Answers.bind hrefolds.still (answers_pure _ _)

end Loops

/-!
# The walk over statements
-/

mutual

theorem refolds_stmt (mode : FoldMode) (henter : EntersInOrder p enter mode.folding) :
    forall (st : Stmt) {n k : Nat} {s : FoldState}, p.FoldedTo n s.program ->
    (forall f, f ∈ mode.folding -> f < n) -> p.Numbers n st.mentions k ->
    Yields (stmt mode enter st) s (StmtRefolds p mode enter n k st s)
  | .constDecl pos id, n, k, s, hs, _, hnumbers => by
      cases hnumbers with
      | plain _ _ hrest =>
          cases hrest
          exact refolds_leaf hs (repeatable_pure _) (answers_pure _ _)
  | .varDecl pos id none, n, k, s, hs, _, hnumbers => by
      cases hnumbers with
      | plain _ _ hrest =>
          cases hrest
          apply refolds_leaf hs ((repeatable_forget id).bind fun _ => repeatable_pure _)
          have hforgets : Repeatable True n s.program (forget id) := repeatable_forget id
          apply (hforgets s (.refl n s.program)).bind
          intro _ s₁ hforgotten
          exact hforgotten.bind (answers_pure _ _)
  | .varDecl pos id (some init), n, k, s, hs, _, hnumbers => by
      cases hnumbers with
      | plain _ _ hrest =>
          rcases hrest.of_plain init.plain with ⟨rfl, hcalls⟩
          exact refolds_slot hs (fun e => .varDecl pos id (some e)) (fun _ => rfl)
            (fun _ x => repeatable_assign id x) hcalls
  | .assign pos id value, n, k, s, hs, _, hnumbers => by
      cases hnumbers with
      | plain _ _ hrest =>
          rcases hrest.of_plain value.plain with ⟨rfl, hcalls⟩
          exact refolds_slot hs (.assign pos id) (fun _ => rfl)
            (fun _ x => repeatable_assign id x) hcalls
  | .funDecl pos f, n, k, s, hs, hopen, hnumbers => by
      cases hnumbers with
      | plain hplain => cases hplain
      | declare hbody hrest =>
          cases hrest
          exact refolds_funDecl henter hs hopen pos hbody
  | .block head body, n, k, s, hs, hopen, hnumbers =>
      refolds_block (refolds_stmts mode henter body hs hopen hnumbers)
  | .ifThen pos cond head body, n, k, s, hs, hopen, hnumbers => by
      rcases hnumbers.guarded with ⟨hcond, hbody⟩
      apply refolds_ifThen hs hcond hbody
      intro s₁ hprogram
      exact refolds_stmts mode henter body (hprogram ▸ hs) hopen hbody
  | .whileDo pos cond head body, n, k, s, hs, hopen, hnumbers => by
      rcases hnumbers.guarded with ⟨hcond, hbody⟩
      apply refolds_whileDo
      apply refolds_foldCopy hs hcond hbody
      intro s₁ hprogram
      exact refolds_stmts { mode with constantOnly := true } henter body (hprogram ▸ hs) hopen hbody
  | .ret pos value, n, k, s, hs, _, hnumbers => by
      rcases hnumbers.of_plain value.plain with ⟨rfl, hcalls⟩
      exact refolds_slot hs (.ret pos) (fun _ => rfl)
        (fun _ x => repeatable_checkReturn mode x) hcalls
  | .call pos f args, n, k, s, hs, _, hnumbers => by
      cases hnumbers with
      | plain _ hcallee hrest =>
          rcases hrest.of_plain (Expr.list_plain args) with ⟨rfl, hcalls⟩
          exact refolds_callStmt hs pos f args (admitted_cons.mpr ⟨hcallee, hcalls⟩)
  | .async pos target f args, n, k, s, hs, _, hnumbers => by
      cases hnumbers with
      | plain _ _ hrest =>
          rcases hrest.of_plain (Expr.list_plain args) with ⟨rfl, hcalls⟩
          exact refolds_asyncStmt hs pos target f args hcalls
  | .await pos target, n, k, s, hs, _, hnumbers => by
      cases hnumbers with
      | plain _ _ hrest =>
          cases hrest
          exact refolds_awaitStmt hs pos target

theorem refolds_stmts (mode : FoldMode) (henter : EntersInOrder p enter mode.folding) :
    forall (body : List Stmt) {n k : Nat} {s : FoldState}, p.FoldedTo n s.program ->
    (forall f, f ∈ mode.folding -> f < n) -> p.Numbers n (Stmt.listMentions body) k ->
    Yields (stmts mode enter body) s (ListRefolds p mode enter n k body s)
  | [], n, k, s, hs, _, hnumbers => by
      cases hnumbers
      exact ⟨hs.stay, answers_pure _ _, answers_pure _ _⟩
  | st :: rest, n, k, s, hs, hopen, hnumbers => by
      rcases hnumbers.split with ⟨mid, hst, hrest⟩
      apply (refolds_stmt mode henter st hs hopen hst).bind
      intro first s₁ hfirst
      have hopen' : forall f, f ∈ mode.folding -> f < mid :=
        fun f hf => Nat.lt_of_lt_of_le (hopen f hf) hst.le
      have hnext := refolds_stmts mode henter rest hfirst.on.folded hopen' hrest
      -- What came of the first statement is not touched behind it.
      have hlater : forall {quiet : Prop} {x : Fold FoldedStmt} {s₂ : FoldState},
          p.FoldsOn mid k s₁.program s₂.program ->
          Answers quiet mid s₁.program x s.known first s₁.known ->
          Answers quiet k s₂.program x s.known first s₁.known :=
        fun hon h => h.mono hon.le hon.same
      cases first with
      | giveUp =>
          have hskipped := hfirst.on.folded.stay.skip hrest
          refine ⟨hfirst.on.trans hskipped, ?_, trivial⟩
          exact (hlater hskipped hfirst.again).bind (answers_pure _ _)
      | remove =>
          apply hnext.mono
          intro result s₂ hrefolds
          refine ⟨hfirst.on.trans hrefolds.on, ?_, ?_⟩
          · exact (hlater hrefolds.on hfirst.again).bind hrefolds.again
          · have hidle : s₁.known = s.known := hfirst.still
            rw [← hidle]
            exact hrefolds.still
      | keep st' =>
          apply hnext.bind
          intro result s₂ hrefolds
          have hagain := hlater hrefolds.on hfirst.again
          cases result with
          | none =>
              refine ⟨hfirst.on.trans hrefolds.on, ?_, trivial⟩
              exact hagain.bind (hrefolds.again.bind (answers_pure _ _))
          | some kept =>
              refine ⟨hfirst.on.trans hrefolds.on, ?_, ?_⟩
              · exact hagain.bind (hrefolds.again.bind (answers_pure _ _))
              · have hstill := hlater hrefolds.on hfirst.still
                exact hstill.bind (Answers.bind hrefolds.still (answers_pure _ _))

end

end Statements
end Fold
end Scriptlet
