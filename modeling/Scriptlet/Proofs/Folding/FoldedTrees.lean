import Scriptlet.Proofs.Folding.EditedPrograms
import Scriptlet.Proofs.Folding.RaisedErrors

/-!
# What the pass makes of a program

The pass puts literals where it knows values and drops what nothing is left of.  A call is
dropped when its function is not being folded and has no side effects, and from then on the
function has none; a declaration is dropped when the body of its function was folded to
nothing.  So the whole program is edited, each body once.
-/

namespace Scriptlet
namespace Fold

/-!
# Expressions
-/

section Expressions

variable {mode : FoldMode}

theorem simplifies_replace {k : Known} {e tree : Expr} (htree : e.Simplifies tree)
    (s : FoldState) : Yields (replace k tree) s fun tree' _ => e.Simplifies tree' := by
  apply Ensures.ite
  · intro _
    exact htree
  · intro hreplaced
    have hliteral : tree.literal? = none := by
      cases hliteral : tree.literal? with
      | none => rfl
      | some v => simp [hliteral] at hreplaced
    have hput : e.Simplifies (.literal tree.pos k.value) := by
      rw [htree.pos]
      exact .literal k.value (htree.literal?_eq_none hliteral)
    cases tree <;> exact hput

theorem simplifies_settle {x : FoldedExpr} {e : Expr} (hx : e.Simplifies x.tree) (s : FoldState) :
    Yields (settle x) s fun tree _ => e.Simplifies tree := by
  unfold settle
  cases x.known with
  | none => exact hx
  | some k => exact simplifies_replace hx s

theorem simplifies_settleSlot (mode : FoldMode) {x : FoldedExpr} {e : Expr}
    (hx : e.Simplifies x.tree) (s : FoldState) :
    Yields (settleSlot mode x) s fun y _ => e.Simplifies y.tree := by
  unfold settleSlot
  cases x.known with
  | none =>
      apply Ensures.ite
      · intro _
        exact hx
      · intro _
        exact hx
  | some k =>
      apply (simplifies_replace hx s).bind
      intro tree _ htree
      exact htree

mutual

theorem simplifies_expr (mode : FoldMode) : forall (e : Expr) (s : FoldState),
    Yields (expr mode e) s fun x _ => e.Simplifies x.tree
  | .literal _ _, _ => .same _
  | .const _ _, _ => .same _
  | .var _ _, _ => .same _
  | .unary pos op operand, s => by
      apply (simplifies_expr mode operand s).bind
      intro x s₁ hx
      apply (simplifies_settle hx s₁).bind
      intro tree s₂ htree
      cases x.known with
      | none => exact .unary htree
      | some k =>
          apply Yields.skip
          intro _ _
          exact .unary htree
  | .binary pos op left right, s => by
      apply (simplifies_expr mode left s).bind
      intro l s₁ hl
      apply (simplifies_settle hl s₁).bind
      intro lTree s₂ hlTree
      cases l.known with
      | none => exact .binary hlTree (.same right)
      | some lk =>
          apply (simplifies_expr mode right s₂).bind
          intro r s₃ hr
          apply (simplifies_settle hr s₃).bind
          intro rTree s₄ hrTree
          cases r.known with
          | none => exact .binary hlTree hrTree
          | some rk =>
              apply Yields.skip
              intro _ _
              exact .binary hlTree hrTree
  | .call pos f args, s => by
      apply (simplifies_arguments mode args s).bind
      intro xs s₁ hxs
      apply Yields.skip
      intro _ _
      exact .call hxs

theorem simplifies_arguments (mode : FoldMode) : forall (args : List Expr) (s : FoldState),
    Yields (arguments mode args) s fun xs _ => Expr.ListSimplifies args xs.trees
  | [], _ => .nil
  | arg :: rest, s => by
      apply (simplifies_expr mode arg s).bind
      intro e s₁ he
      apply (simplifies_settleSlot mode he s₁).bind
      intro x s₂ hx
      apply Ensures.ite
      · intro _
        exact .cons hx (.refl rest)
      · intro _
        apply (simplifies_arguments mode rest s₂).bind
        intro xs _ hxs
        exact .cons hx hxs

end

structure SlotFolded (e : Expr) (x : FoldedExpr) : Prop where
  simplifies : e.Simplifies x.tree
  literal : LiteralIsKnown x.tree x.known

theorem SlotFolded.not_isFalse {e : Expr} {x : FoldedExpr} (h : SlotFolded e x)
    (hknown : forall k, x.known = some k -> k.value ≠ .bool false) : ¬x.tree.IsFalse := by
  intro hfalse
  cases htree : x.tree with
  | literal pos v =>
      rw [htree] at hfalse
      cases hfalse
      exact hknown _ (h.literal pos _ htree) rfl
  | _ =>
      rw [htree] at hfalse
      cases hfalse

theorem slotFolded_slot (e : Expr) (s : FoldState) :
    Yields (slot mode e) s fun x _ => SlotFolded e x := by
  apply ((simplifies_expr mode e s).and (yields_expr_literal mode e s)).bind
  intro x s₁ hx
  have hsettled := (simplifies_settleSlot mode hx.1 s₁).and
    ((@yields_settleSlot_literal mode x hx.2 s₁).and (forgets_settleSlot x s₁))
  apply hsettled.mono
  rintro y s₂ ⟨hsimplifies, hliteral, hknown, -⟩
  rw [← hknown] at hliteral
  exact ⟨hsimplifies, hliteral⟩

theorem simplifies_asyncArguments (mode : FoldMode) (args : List Expr) : forall s : FoldState,
    Yields (asyncArguments mode args) s fun trees _ => Expr.ListSimplifies args trees := by
  induction args with
  | nil => exact fun _ => .nil
  | cons arg rest ih =>
      intro s
      apply (slotFolded_slot arg s).bind
      intro x s₁ hx
      apply (ih s₁).bind
      intro trees _ hrest
      exact .cons hx.simplifies hrest

end Expressions

/-!
# Programs while bodies are folded
-/

end Fold

namespace Program

def dropsOutside (q : Program) (folding : List FunId) : Drops where
  call f := f ∉ folding ∧ q.drops.call f
  declaration f := f ∉ folding ∧ q.drops.declaration f

/-- The tables are kept, what may be dropped may still be, and each body is edited. -/
structure EditedOutside (folding : List FunId) (q q' : Program) : Prop where
  shell : q.SameShell q'
  drops : (q.dropsOutside folding).Allows (q'.dropsOutside folding)
  bodies : forall f, Stmt.ListEdited (q'.dropsOutside folding) (q.bodyOf f) (q'.bodyOf f)

theorem EditedOutside.refl (folding : List FunId) (q : Program) : q.EditedOutside folding q where
  shell := .refl q
  drops := ⟨fun _ hf => hf, fun _ hf => hf⟩
  bodies := fun _ => .refl _ _

theorem EditedOutside.of_eq {folding : List FunId} {q q' : Program} (h : q' = q) :
    EditedOutside folding q q' :=
  h ▸ .refl folding q

theorem EditedOutside.trans {folding : List FunId} {q q' q'' : Program}
    (h : EditedOutside folding q q') (h' : EditedOutside folding q' q'')
    (honce : forall f, q'.bodyOf f = q.bodyOf f ∨ q''.bodyOf f = q'.bodyOf f) :
    EditedOutside folding q q'' where
  shell := h.shell.trans h'.shell
  drops := ⟨fun f hf => h'.drops.call f (h.drops.call f hf),
    fun f hf => h'.drops.declaration f (h.drops.declaration f hf)⟩
  bodies := by
    intro f
    rcases honce f with hsame | hsame
    · exact hsame ▸ h'.bodies f
    · exact hsame ▸ (h.bodies f).mono h'.drops

theorem hasSideEffects_eq_false_iff {p : Program} {f : FunId} :
    p.hasSideEffects f = false <->
      (p.function f).isNative = false ∧ p.stmtsHaveEffects f (p.bodyOf f) = false := by
  unfold hasSideEffects bodyOf Function.isNative
  cases (p.function f).body <;> simp

section WithBody

variable (p : Program) (f : FunId) (body : List Stmt)

theorem sameShell_withBody : p.SameShell (Fold.withBody p f body) := by
  unfold Fold.withBody
  cases hblock : (p.function f).body with
  | none => exact .refl p
  | some block =>
      refine ⟨rfl, rfl, rfl, rfl, ?_⟩
      have hf := lt_of_body hblock
      have hfunction : p.function f = p.functions[f] := by
        rw [function, List.getD_eq_getElem?_getD, List.getElem?_eq_getElem hf]
        rfl
      apply List.ext_getElem?
      intro g
      show ((p.functions.set f _).map Function.emptied)[g]? = _
      rw [List.getElem?_map, List.getElem?_map, List.getElem?_set]
      by_cases hg : f = g
      · subst hg
        have hsame :
            Function.emptied { p.function f with body := some { block with body := body } } =
              (p.function f).emptied := by
          simp [Function.emptied, hblock]
        rw [if_pos rfl, if_pos hf, List.getElem?_eq_getElem hf, Option.map_some, hsame, hfunction]
        rfl
      · rw [if_neg hg]

variable {p f}

theorem bodyOf_withBody_self (h : (p.function f).isNative = false) :
    (Fold.withBody p f body).bodyOf f = body := by
  unfold Fold.withBody
  cases hblock : (p.function f).body with
  | none => simp [Function.isNative, hblock] at h
  | some block =>
      have hf := lt_of_body hblock
      simp only [bodyOf, function_setFunction p hf, if_pos]

end WithBody

theorem SameShell.drops_of_body {q q' : Program} (h : q.SameShell q') {d : Drops} {f : FunId}
    (hbody : Stmt.ListEdited d (q.bodyOf f) (q'.bodyOf f)) :
    (q.drops.call f -> q'.drops.call f) ∧ (q.drops.declaration f -> q'.drops.declaration f) := by
  constructor
  · intro hcall
    rcases hasSideEffects_eq_false_iff.mp hcall with ⟨huser, heffects⟩
    exact hasSideEffects_eq_false_iff.mpr
      ⟨(h.isNative f).trans huser, hbody.effects h.vars heffects⟩
  · rintro ⟨huser, hempty⟩
    rw [hempty] at hbody
    exact ⟨(h.isNative f).trans huser, hbody.of_nil⟩

theorem EditedOutside.putBack {folding : List FunId} {q q₁ : Program} {f : FunId}
    {kept : List Stmt} (h : EditedOutside (f :: folding) (Fold.withBody q f []) q₁)
    (hkept : Stmt.ListEdited (q₁.dropsOutside (f :: folding)) (q.bodyOf f) kept) :
    EditedOutside folding q (Fold.withBody q₁ f kept) := by
  have htaken := sameShell_withBody q f []
  have hput := sameShell_withBody q₁ f kept
  have hshell := (htaken.trans h.shell).trans hput
  have hother : forall g, g ≠ f -> Stmt.ListEdited (q₁.dropsOutside (f :: folding)) (q.bodyOf g)
      ((Fold.withBody q₁ f kept).bodyOf g) := by
    intro g hg
    rw [Fold.bodyOf_withBody_ne q₁ hg, ← Fold.bodyOf_withBody_ne q hg []]
    exact h.bodies g
  have hself : Stmt.ListEdited (q₁.dropsOutside (f :: folding)) (q.bodyOf f)
      ((Fold.withBody q₁ f kept).bodyOf f) := by
    cases hnative : (q.function f).isNative with
    | true =>
        have hnative' := (hshell.isNative f).trans hnative
        rw [bodyOf_of_native hnative, bodyOf_of_native hnative']
        exact .nil
    | false =>
        have huser := ((htaken.trans h.shell).isNative f).trans hnative
        rw [bodyOf_withBody_self kept huser]
        exact hkept
  have hbodies : forall g, Stmt.ListEdited (q₁.dropsOutside (f :: folding)) (q.bodyOf g)
      ((Fold.withBody q₁ f kept).bodyOf g) := by
    intro g
    by_cases hg : g = f
    · exact hg ▸ hself
    · exact hother g hg
  have hback : (q₁.dropsOutside (f :: folding)).Allows
      ((Fold.withBody q₁ f kept).dropsOutside folding) := by
    have hsame : forall g, g ∉ f :: folding ->
        Stmt.ListEdited (q₁.dropsOutside (f :: folding)) (q₁.bodyOf g)
          ((Fold.withBody q₁ f kept).bodyOf g) := by
      intro g hg
      rw [Fold.bodyOf_withBody_ne q₁ (List.ne_of_not_mem_cons hg)]
      exact .refl _ _
    refine ⟨?_, ?_⟩
    · rintro g ⟨hg, hcall⟩
      exact ⟨List.not_mem_of_not_mem_cons hg, (hput.drops_of_body (hsame g hg)).1 hcall⟩
    · rintro g ⟨hg, hempty⟩
      exact ⟨List.not_mem_of_not_mem_cons hg, (hput.drops_of_body (hsame g hg)).2 hempty⟩
  refine ⟨hshell, ⟨?_, ?_⟩, fun g => (hbodies g).mono hback⟩
  · rintro g ⟨hg, hcall⟩
    exact ⟨hg, (hshell.drops_of_body (hbodies g)).1 hcall⟩
  · rintro g ⟨hg, hempty⟩
    exact ⟨hg, (hshell.drops_of_body (hbodies g)).2 hempty⟩

end Program

/-!
# Statements
-/

def FoldedStmt.left? : FoldedStmt -> Option (List Stmt)
  | keep s => some [s]
  | remove => some []
  | giveUp => none

namespace Fold

open FoldPoint

/-- The program is edited, and so are the statements that are worked on. -/
structure Edits (folding : List FunId) (before : List Stmt) (s : FoldState)
    (left : Option (List Stmt)) (s' : FoldState) : Prop where
  program : Program.EditedOutside folding s.program s'.program
  tree : forall kept, left = some kept ->
    Stmt.ListEdited (s'.program.dropsOutside folding) before kept

theorem edits_gaveUp {folding : List FunId} {before : List Stmt} {s s' : FoldState}
    (h : Program.EditedOutside folding s.program s'.program) : Edits folding before s none s' :=
  ⟨h, fun _ hkept => nomatch hkept⟩

theorem edits_kept {folding : List FunId} {st st' : Stmt} {s s' : FoldState}
    (h : Program.EditedOutside folding s.program s'.program)
    (hst : st.Edited (s'.program.dropsOutside folding) st') :
    Edits folding [st] s (some [st']) s' := by
  refine ⟨h, ?_⟩
  intro kept hkept
  cases hkept
  exact .keep hst .nil

theorem Edits.behind {folding : List FunId} {before : List Stmt} {s s' s'' : FoldState}
    {left : Option (List Stmt)} (h : Edits folding before s left s')
    (hprogram : s''.program = s'.program) : Edits folding before s left s'' := by
  refine ⟨?_, ?_⟩
  · rw [hprogram]
    exact h.program
  · rw [hprogram]
    exact h.tree

section Plain

variable {p : Program} {mode : FoldMode} {s : FoldState}

theorem yields_slotFolded (hs : s.Typed p) (e : Expr) :
    Yields (slot mode e) s fun x s' => SlotFolded e x ∧ s'.Typed p ∧ s'.program = s.program := by
  apply ((slotFolded_slot e s).remember).mono
  rintro x s' ⟨hslot, hx⟩
  have htyped := slotTyped_of_ok hs hslot
  exact ⟨hx, htyped.state, htyped.program⟩

theorem edits_assigned (hs : s.Typed p) (before : Stmt) (build : Expr -> Stmt) (id : VarId)
    (e : Expr) (hbuild : forall (d : Drops) e', e.Simplifies e' -> before.Edited d (build e')) :
    Yields (do
      let x ← slot mode e
      if givesUp mode x then
        return FoldedStmt.giveUp
      else
        assign id x
        return .keep (build x.tree)) s fun r s' => Edits mode.folding [before] s r.left? s' := by
  apply (yields_slotFolded hs e).bind
  rintro x s₁ ⟨hx, -, hprogram⟩
  apply Ensures.ite
  · intro _
    exact edits_gaveUp (.of_eq hprogram)
  · intro _
    apply (yields_assign id x s₁).bind
    intro _ s₂ hassigned
    exact edits_kept (.of_eq (hassigned.trans hprogram)) (hbuild _ _ hx.simplifies)

theorem yields_callWith_idle (mode : FoldMode) (s : FoldState) (pos : Pos) (f : FunId)
    (xs : FoldedArgs) :
    Yields (callWith mode pos f xs) s fun call _ => forall c, call = some c ->
      c.elidable = true -> f ∉ mode.folding ∧ s.program.hasSideEffects f = false := by
  apply Ensures.get_bind
  apply Ensures.ite
  · intro _ c hc
    cases hc
  · intro _
    cases xs.values with
    | none =>
        apply Yields.skip
        intro _ _ c hc
        cases hc
    | some values =>
        apply Ensures.ite
        · intro _
          apply Yields.skip
          intro _ _ c hc
          cases hc
        · intro hfollowed
          apply Ensures.get_bind
          apply Yields.skip
          intro _ s₁
          cases evalCall s.program mode.quota (callGlobals mode s.program s.known) f values with
          | none =>
              apply Yields.skip
              intro _ _ c hc
              cases hc
          | some result =>
              have hidle : forall c : FoldedCall,
                  some { value := result.1, elidable :=
                    !(mode.folding.contains f || s.program.hasSideEffects f) && xs.elidable } =
                      some c -> c.elidable = true ->
                  f ∉ mode.folding ∧ s.program.hasSideEffects f = false := by
                rintro c hc helidable
                cases hc
                simp only [Bool.and_eq_true, Bool.not_eq_true', Bool.or_eq_false_iff] at helidable
                simpa using helidable.1
              apply Ensures.ite
              · intro _
                exact hidle
              · intro _
                exact hidle

theorem edits_callStmt (hs : s.Typed p) (pos : Pos) (f : FunId) (args : List Expr) :
    Yields (callStmt mode pos f args) s fun r s' =>
      Edits mode.folding [.call pos f args] s r.left? s' := by
  have hargs := (simplifies_arguments mode args s).remember
  apply hargs.bind
  rintro xs s₁ ⟨hfolded, hxs⟩
  have htyped := argsTyped_of_ok hs hfolded
  have hcall := (yields_callWith_idle mode s₁ pos f xs).and
    ((checks_callWith mode htyped.state pos f htyped.types).blame fun _ _ => trivial)
  apply hcall.bind
  rintro call s₂ ⟨hidle, hchecked⟩
  have hprogram := hchecked.program.trans htyped.program
  have hkept : Edits mode.folding [.call pos f args] s (some [.call pos f xs.trees]) s₂ :=
    edits_kept (.of_eq hprogram) (.call hxs)
  cases call with
  | none =>
      apply Ensures.ite
      · intro _
        exact edits_gaveUp (.of_eq hprogram)
      · intro _
        exact hkept
  | some c =>
      apply Ensures.ite
      · intro helidable
        rcases hidle c rfl helidable with ⟨hopen, hpure⟩
        refine ⟨.of_eq hprogram, ?_⟩
        rintro kept hkept
        cases hkept
        refine .dropCall ⟨hopen, ?_⟩ .nil
        rw [htyped.program] at hpure
        show s₂.program.hasSideEffects f = false
        rw [hprogram]
        exact hpure
      · intro _
        exact hkept

theorem edits_asyncStmt (hs : s.Typed p) (pos : Pos) (target : VarId) (f : FunId)
    (args : List Expr) :
    Yields (asyncStmt mode pos target f args) s fun r s' =>
      Edits mode.folding [.async pos target f args] s r.left? s' := by
  apply Ensures.ite
  · intro _
    exact edits_gaveUp (.refl _ _)
  · intro _
    have hreach : Reaches ⟨mode, 0, .arguments args, s⟩ ⟨mode, 0, .arguments args, s⟩ := .refl
    have hargs := (simplifies_asyncArguments mode args s).and
      ((ensures_asyncArguments mode 0 args hreach hs).blame fun _ _ => trivial)
    apply hargs.bind
    rintro trees s₁ ⟨htrees, hprogram, -⟩
    apply Ensures.modify_bind
    apply Ensures.get_bind
    apply Ensures.ite
    · intro _
      exact edits_kept (.of_eq hprogram) (.async htrees)
    · intro _
      exact edits_kept (.of_eq hprogram) (.async htrees)

theorem edits_endLoop {folding : List FunId} {before t : FoldState}
    (h : Program.EditedOutside folding before.program t.program) (pos : Pos) (cond : Expr)
    (head : BlockHead) (body : List Stmt) (result : FoldedLoop)
    (hresult : forall cond' body', result = .folded cond' body' ->
      Stmt.Edited (t.program.dropsOutside folding) (.whileDo pos cond head body)
        (.whileDo pos cond' head body')) :
    Yields (endLoop mode before pos cond head body result) t fun r s' =>
      Edits folding [.whileDo pos cond head body] before r.left? s' := by
  have hfinish : forall (cond' : Expr) (body' : List Stmt) (u : FoldState),
      u.program = t.program ->
      Stmt.Edited (t.program.dropsOutside folding) (.whileDo pos cond head body)
        (.whileDo pos cond' head body') ->
      Yields (do
        forgetAssigned (Assigned.byStmts body')
        if cond'.hasCall then
          forgetGlobals
        return FoldedStmt.keep (.whileDo pos cond' head body')) u fun r s' =>
        Edits folding [.whileDo pos cond head body] before r.left? s' := by
    intro cond' body' u hu hedited
    apply Ensures.modify_bind
    apply Ensures.ite
    · intro _
      exact (edits_kept h hedited).behind hu
    · intro _
      exact (edits_kept h hedited).behind hu
  apply Ensures.modify_bind
  cases result with
  | folded cond' body' => exact hfinish cond' body' _ rfl (hresult cond' body' rfl)
  | neverEntered => exact hfinish cond body _ rfl (.refl _ _)
  | gaveUp =>
      apply Ensures.ite
      · intro _
        exact edits_gaveUp h
      · intro _
        exact hfinish cond body _ rfl (.refl _ _)

end Plain

section Conditions

variable {p : Program} {mode : FoldMode} {enter : FunId -> Fold Unit} {s : FoldState} {pos : Pos}
  {cond : Expr} {head : BlockHead} {body : List Stmt}

theorem edits_ifThen (hs : s.Typed p)
    (hbody : forall c s₁, slot mode cond s = .ok (c, s₁) ->
      Yields (stmts mode enter body) s₁ (Edits mode.folding body s₁)) :
    Yields (stmt mode enter (.ifThen pos cond head body)) s fun r s' =>
      Edits mode.folding [.ifThen pos cond head body] s r.left? s' := by
  apply (yields_slotFolded hs cond).remember.bind
  rintro c s₁ ⟨hslot, hc, -, hprogram⟩
  have hskipped : Program.EditedOutside mode.folding s.program s₁.program := .of_eq hprogram
  have hentered : forall {kept s₂}, ¬c.tree.IsFalse ->
      Edits mode.folding body s₁ (some kept) s₂ ->
      Edits mode.folding [.ifThen pos cond head body] s
        (some [.ifThen pos c.tree head kept]) s₂ := by
    intro kept s₂ hfalse hedits
    apply edits_kept (hprogram ▸ hedits.program)
    exact .ifThen hc.simplifies (fun h => absurd h hfalse) (hedits.tree kept rfl)
  cases hknown : c.known with
  | none =>
      have hfalse := hc.not_isFalse fun k hk => by
        rw [hknown] at hk
        cases hk
      apply Ensures.ite
      · intro _
        exact edits_gaveUp hskipped
      · intro _
        apply (hbody c s₁ hslot).bind
        intro result s₂ hedits
        cases result with
        | none => exact edits_gaveUp (hprogram ▸ hedits.program)
        | some kept =>
            apply (forgets_forgetAssigned _ s₂).bind
            intro _ s₃ hforgets
            exact (hentered hfalse hedits).behind hforgets.program
  | some k =>
      obtain ⟨value, elidable⟩ := k
      cases value with
      | int n => trivial
      | float x => trivial
      | bool b =>
          cases b with
          | false =>
              exact edits_kept hskipped (.ifThen hc.simplifies (fun _ => rfl) (.refl _ _))
          | true =>
              have hfalse := hc.not_isFalse fun k hk => by
                rw [hknown] at hk
                cases hk
                exact nofun
              apply (hbody c s₁ hslot).bind
              intro result s₂ hedits
              cases result with
              | none => exact edits_gaveUp (hprogram ▸ hedits.program)
              | some kept => exact hentered hfalse hedits

theorem edits_whileDo (hs : s.Typed p)
    (hbody : forall c s₁, slot { mode with constantOnly := true } cond s = .ok (c, s₁) ->
      Yields (stmts { mode with constantOnly := true } enter body) s₁
        (Edits mode.folding body s₁)) :
    Yields (stmt mode enter (.whileDo pos cond head body)) s fun r s' =>
      Edits mode.folding [.whileDo pos cond head body] s r.left? s' := by
  apply Ensures.get_bind
  apply (yields_slotFolded hs cond).remember.bind
  rintro c s₁ ⟨hslot, hc, -, hprogram⟩
  have hunfolded : forall result : FoldedLoop,
      (forall cond' body', result ≠ .folded cond' body') -> forall {t},
      Program.EditedOutside mode.folding s.program t.program ->
      Yields (endLoop mode s pos cond head body result) t fun r s' =>
        Edits mode.folding [.whileDo pos cond head body] s r.left? s' := by
    intro result hresult t ht
    exact edits_endLoop ht pos cond head body result fun cond' body' h =>
      absurd h (hresult cond' body')
  cases hknown : c.known with
  | none => exact hunfolded .gaveUp (fun _ _ => nofun) (.of_eq hprogram)
  | some k =>
      obtain ⟨value, elidable⟩ := k
      cases value with
      | int n => trivial
      | float x => trivial
      | bool b =>
          cases b with
          | false => exact hunfolded .neverEntered (fun _ _ => nofun) (.of_eq hprogram)
          | true =>
              have hfalse := hc.not_isFalse fun k hk => by
                rw [hknown] at hk
                cases hk
                exact nofun
              apply (hbody c s₁ hslot).bind
              intro result s₂ hedits
              have hentered := hprogram ▸ hedits.program
              cases result with
              | none => exact hunfolded .gaveUp (fun _ _ => nofun) hentered
              | some kept =>
                  apply edits_endLoop hentered
                  rintro cond' body' heq
                  cases heq
                  exact .whileDo hc.simplifies (fun h => absurd h hfalse) (hedits.tree kept rfl)

end Conditions

/-!
# The pass
-/

def DeclaresLater (p : Program) (folding : List FunId) : Prop :=
  forall f, .declareFunction f ∈ Stmt.listMentions (p.textOf folding.head?) ->
    forall g, g ∈ folding -> g < f

theorem DeclaresLater.nil (p : Program) : DeclaresLater p [] :=
  fun _ _ _ hg => nomatch hg

theorem DeclaresLater.cons {p : Program} (hnested : p.Nested) {folding : List FunId} {f : FunId}
    (h : DeclaresLater p folding)
    (hf : .declareFunction f ∈ Stmt.listMentions (p.textOf folding.head?)) :
    DeclaresLater p (f :: folding) := by
  intro g hg open' hopen
  have hlater := (hnested.later hg).1
  rcases List.mem_cons.mp hopen with rfl | hopen
  · exact hlater
  · exact Nat.lt_trans (h f hf open' hopen) hlater

section Pass

variable {p : Program}

def EntersEditing (p : Program) (quota depth : Nat) (folding : List FunId) : Prop :=
  forall (mode : FoldMode) (pos : Pos) (f : FunId) (s : FoldState), mode.quota = quota ->
    mode.folding = folding -> Faithful p ⟨mode, depth, .stmt (.funDecl pos f), s⟩ ->
    Yields (functionWithin quota depth folding f) s fun _ s' =>
      Program.EditedOutside folding s.program s'.program

theorem changesBelow_stmt (hnested : p.WellNested) {mode : FoldMode} {depth : Nat} {st : Stmt}
    {s : FoldState} (ha : Faithful p ⟨mode, depth, .stmt st, s⟩) :
    Yields (stmt mode (functionWithin mode.quota depth mode.folding) st) s fun _ s' =>
      ChangesBelow p st.mentions s s' :=
  (ensures_stmt hnested mode depth (entersFaithful_functionWithin hnested mode.quota depth
    mode.folding) st .refl ha).blame fun _ _ => trivial

theorem changesBelow_stmts (hnested : p.WellNested) {mode : FoldMode} {depth : Nat}
    {body : List Stmt} {s : FoldState} (ha : Faithful p ⟨mode, depth, .stmts body, s⟩) :
    Yields (stmts mode (functionWithin mode.quota depth mode.folding) body) s fun _ s' =>
      ChangesBelow p (Stmt.listMentions body) s s' :=
  (ensures_stmts hnested mode depth (entersFaithful_functionWithin hnested mode.quota depth
    mode.folding) body .refl ha).blame fun _ _ => trivial

theorem edits_funDecl {mode : FoldMode} {depth : Nat} {pos : Pos} {f : FunId} {s : FoldState}
    (hlater : DeclaresLater p mode.folding)
    (henter : EntersEditing p mode.quota depth mode.folding)
    (ha : Faithful p ⟨mode, depth, .stmt (.funDecl pos f), s⟩) :
    Yields (funDecl (functionWithin mode.quota depth mode.folding) pos f) s fun r s' =>
      Edits mode.folding [.funDecl pos f] s r.left? s' := by
  apply (henter mode pos f s rfl rfl ha).bind
  intro _ s₁ hprogram
  apply Ensures.get_bind
  cases hblock : (s₁.program.function f).body with
  | none => exact edits_kept hprogram .funDecl
  | some block =>
      apply Ensures.ite
      · intro hempty
        refine ⟨hprogram, ?_⟩
        rintro kept hkept
        cases hkept
        have hdeclared := ha.stands.sublist.subset (List.mem_singleton.mpr rfl)
        have hclosed : f ∉ mode.folding := fun hopen =>
          Nat.lt_irrefl f (hlater f hdeclared f hopen)
        refine .dropDeclaration ⟨hclosed, ?_, ?_⟩ .nil
        · show (s₁.program.function f).isNative = false
          rw [Function.isNative, hblock]
          rfl
        · show s₁.program.bodyOf f = []
          rw [Program.bodyOf, hblock]
          exact List.isEmpty_iff.mp hempty
      · intro _
        exact edits_kept hprogram .funDecl

mutual

theorem edits_stmt (hnested : p.WellNested) (mode : FoldMode) (depth : Nat)
    (hlater : DeclaresLater p mode.folding)
    (henter : EntersEditing p mode.quota depth mode.folding) :
    forall (st : Stmt) {s : FoldState}, Faithful p ⟨mode, depth, .stmt st, s⟩ ->
    Yields (stmt mode (functionWithin mode.quota depth mode.folding) st) s fun r s' =>
      Edits mode.folding [st] s r.left? s'
  | .constDecl pos id, s, _ => edits_kept (.refl _ _) .constDecl
  | .varDecl pos id none, s, _ => edits_kept (.refl _ _) .varDecl
  | .varDecl pos id (some init), s, ha =>
      edits_assigned ha.typed _ (fun tree => .varDecl pos id (some tree)) id init
        fun _ _ => .initialized
  | .assign pos id value, s, ha =>
      edits_assigned ha.typed _ (.assign pos id) id value fun _ _ => .assign
  | .funDecl pos f, s, ha => edits_funDecl hlater henter ha
  | .block head body, s, ha => by
      apply (edits_stmts hnested mode depth hlater henter body (ha.inner .block rfl)).bind
      intro result s₁ hedits
      cases result with
      | none => exact edits_gaveUp hedits.program
      | some body' =>
          have hbody := hedits.tree body' rfl
          cases body' with
          | nil =>
              refine ⟨hedits.program, ?_⟩
              rintro kept hkept
              cases hkept
              exact .dropBlock hbody .nil
          | cons first rest => exact edits_kept hedits.program (.block hbody)
  | .ifThen pos cond head body, s, ha => by
      apply edits_ifThen ha.typed
      intro c s₁ hslot
      have hc := slotTyped_of_ok ha.typed hslot
      exact edits_stmts hnested mode depth hlater henter body
        (ha.behind .branch rfl hc.state hc.program)
  | .whileDo pos cond head body, s, ha => by
      apply edits_whileDo ha.typed
      intro c s₁ hslot
      have hc := slotTyped_of_ok ha.typed hslot
      exact edits_stmts hnested { mode with constantOnly := true } depth hlater henter body
        (ha.behind .loopBody rfl hc.state hc.program)
  | .ret pos value, s, ha => by
      apply (yields_slotFolded ha.typed value).bind
      rintro x s₁ ⟨hx, -, hprogram⟩
      apply Ensures.ite
      · intro _
        exact edits_gaveUp (.of_eq hprogram)
      · intro _
        apply (yields_checkReturn x s₁).bind
        intro _ s₂ hchecked
        exact edits_kept (.of_eq (hchecked.trans hprogram)) (.ret hx.simplifies)
  | .call pos f args, s, ha => edits_callStmt ha.typed pos f args
  | .async pos target f args, s, ha => edits_asyncStmt ha.typed pos target f args
  | .await pos target, s, ha => by
      apply Ensures.ite
      · intro _
        exact edits_gaveUp (.refl _ _)
      · intro _
        exact edits_kept (.refl _ _) .await

theorem edits_stmts (hnested : p.WellNested) (mode : FoldMode) (depth : Nat)
    (hlater : DeclaresLater p mode.folding)
    (henter : EntersEditing p mode.quota depth mode.folding) :
    forall (body : List Stmt) {s : FoldState}, Faithful p ⟨mode, depth, .stmts body, s⟩ ->
    Yields (stmts mode (functionWithin mode.quota depth mode.folding) body) s
      (Edits mode.folding body s)
  | [], s, _ => by
      refine ⟨.refl _ _, ?_⟩
      rintro kept hkept
      cases hkept
      exact .nil
  | st :: rest, s, ha => by
      have hst := ha.inner .first rfl
      have hfirst := (edits_stmt hnested mode depth hlater henter st hst).and
        (changesBelow_stmt hnested hst)
      apply hfirst.bind
      rintro first s₁ ⟨hfirst, hchanged⟩
      have hnext := ha.next hnested hchanged
      have hrest := (edits_stmts hnested mode depth hlater henter rest hnext).and
        (changesBelow_stmts hnested hnext)
      -- A body that the statement declares is none that the others declare.
      have hboth : forall {result s₂}, Edits mode.folding rest s₁ result s₂ ->
          ChangesBelow p (Stmt.listMentions rest) s₁ s₂ ->
          Program.EditedOutside mode.folding s.program s₂.program := by
        intro result s₂ hedits hchanged'
        apply hfirst.program.trans hedits.program
        intro f
        by_cases hcovers : p.Covers st.mentions f
        · exact .inr (hchanged'.bodies f (ha.stands.apart hnested hcovers))
        · exact .inl (hchanged.bodies f hcovers)
      have happend : forall {left result s₂}, first.left? = some left ->
          Edits mode.folding rest s₁ (some result) s₂ ->
          ChangesBelow p (Stmt.listMentions rest) s₁ s₂ ->
          Edits mode.folding (st :: rest) s (some (left ++ result)) s₂ := by
        intro left result s₂ hleft hedits hchanged'
        refine ⟨hboth hedits hchanged', ?_⟩
        rintro kept hkept
        cases hkept
        exact ((hfirst.tree left hleft).mono hedits.program.drops).append (hedits.tree result rfl)
      cases first with
      | giveUp => exact edits_gaveUp hfirst.program
      | remove =>
          apply hrest.mono
          rintro result s₂ ⟨hedits, hchanged'⟩
          cases result with
          | none => exact edits_gaveUp (hboth hedits hchanged')
          | some kept => exact happend rfl hedits hchanged'
      | keep st' =>
          apply hrest.bind
          rintro result s₂ ⟨hedits, hchanged'⟩
          cases result with
          | none => exact edits_gaveUp (hboth hedits hchanged')
          | some kept => exact happend rfl hedits hchanged'

end

theorem entersEditing_functionWithin (hnested : p.WellNested) (quota depth : Nat) :
    forall folding : List FunId, DeclaresLater p folding ->
      EntersEditing p quota depth folding := by
  -- By induction on the number of bodies that may still be opened.
  induction depth with
  | zero =>
      intro folding _ mode pos f s _ _ _
      exact .refl _ _
  | succ depth ih =>
      intro folding hlater mode pos f s hquota hfolding ha
      subst hquota hfolding
      have hdeclared := ha.stands.sublist.subset (List.mem_singleton.mpr rfl)
      have hinner := hlater.cons hnested.nested hdeclared
      have hstmts := edits_stmts hnested (bodyMode mode.quota mode.folding f) depth hinner
        (ih (f :: mode.folding) hinner) (s.program.bodyOf f) (ha.body hnested)
      apply Ensures.get_bind
      apply Ensures.set_bind
      apply hstmts.bind
      intro result s₁ hedits
      apply hedits.program.putBack
      cases result with
      | none => exact .refl _ _
      | some kept => exact hedits.tree kept rfl

theorem edits_root (hnested : p.WellNested) (quota : Nat) :
    Yields (root quota p) { program := p, known := .empty, stats := .none } fun kept s =>
      Program.EditedOutside [] p s.program ∧
        Stmt.ListEdited (s.program.dropsOutside []) p.root kept := by
  have hstart : Faithful p (FoldPoint.start quota p) :=
    ⟨⟨.refl p, fun _ _ hv => nomatch hv⟩, .refl, fun _ _ => rfl⟩
  have hnone := DeclaresLater.nil p
  apply (edits_stmts hnested _ _ hnone
    (entersEditing_functionWithin hnested quota p.functions.length [] hnone) p.root hstart).bind
  intro result s hedits
  refine ⟨hedits.program, ?_⟩
  cases result with
  | none => exact .refl _ _
  | some kept => exact hedits.tree kept rfl

end Pass
end Fold

/-- The pass edits a coherent program and leaves it coherent.  All tables are kept.  In the
statements literals stand for expressions, and dropped are: calls of functions without side
effects, blocks of which nothing is left, and declarations of functions with empty bodies.
Below a condition that is false everything is kept. -/
theorem optimize_edits {p : Program} (hp : p.Coherent) {quota : Nat} {o : Optimized}
    (h : p.optimize quota = .ok o) : p.EditedTo o.program ∧ o.program.Coherent := by
  have hedited : p.EditedTo o.program := by
    simp only [Program.optimize] at h
    split at h
    · rename_i root s hroot
      cases h
      rcases (Fold.edits_root hp.nested quota).of_ok hroot with ⟨hprogram, htree⟩
      have hshell := hprogram.shell
      have hroot : s.program.SameShell { s.program with root := root } :=
        ⟨rfl, rfl, rfl, rfl, rfl⟩
      have hdrops : (s.program.dropsOutside []).Allows
          ({ s.program with root := root } : Program).drops :=
        ⟨fun f hf => (hroot.drops_of_body (.refl .nothing (s.program.bodyOf f))).1 hf.2,
          fun f hf => (hroot.drops_of_body (.refl .nothing (s.program.bodyOf f))).2 hf.2⟩
      exact ⟨⟨hshell.constants, hshell.vars, hshell.globalCount, hshell.globals, hshell.functions⟩,
        htree.mono hdrops, fun f => (hprogram.bodies f).mono hdrops⟩
    · cases h
  exact ⟨hedited, hedited.coherent hp⟩

section Lazy

def lazyTokens : List Token :=
  [(.funWord, "fun"), (.name, "two"), (.openParen, "("), (.closeParen, ")"), (.colon, ":"),
    (.intType, "int"), (.openBrace, "\x7b"), (.returnWord, "return"), (.intLit, "2"),
    (.closeBrace, "\x7d"), (.funWord, "fun"), (.name, "lazy"), (.openParen, "("),
    (.closeParen, ")"), (.openBrace, "\x7b"), (.name, "two"), (.openParen, "("),
    (.closeParen, ")"), (.closeBrace, "\x7d"), (.name, "lazy"), (.openParen, "("),
    (.closeParen, ")"), (.varWord, "var"), (.name, "x"), (.colon, ":"), (.intType, "int"),
    (.equal, "="), (.name, "two"), (.openParen, "("), (.closeParen, ")")].map fun word =>
      { pos := .endOfInput, kind := word.1, text := word.2 }

def lazyProgram (root body : List Stmt) : Program :=
  let head : BlockHead := { scope := 1, pos := .endOfInput }
  let two : Function :=
    { name := "two", params := [], result := .int, localCount := 0
      body := some { head := head, body := [.ret .endOfInput (.literal .endOfInput (.int 2))] } }
  let lazy : Function :=
    { name := "lazy", params := [], result := .none, localCount := 0
      body := some { head := { scope := 2, pos := .endOfInput }, body := body } }
  { root := root
    constants := []
    vars := [{ name := "x", type := .int, owner := none, slot := 0, default := none }]
    functions := [two, lazy]
    globalCount := 1
    globals := [.function 0, .function 1, .var 0] }

def lazyOriginal : Program :=
  lazyProgram
    [.funDecl .endOfInput 0, .funDecl .endOfInput 1, .call .endOfInput 1 [],
      .varDecl .endOfInput 0 (some (.call .endOfInput 0 []))]
    [.call .endOfInput 0 []]

def lazyOptimized : Optimized where
  program := lazyProgram
    [.funDecl .endOfInput 0, .varDecl .endOfInput 0 (some (.literal .endOfInput (.int 2)))] []
  stats := { foldedExprs := 0, elidedCalls := 3, removedBlocks := 1 }

theorem parse_lazyTokens : parse ([] : List (Extern Unit)) lazyTokens =
    .ok { program := lazyOriginal, warnings := [] } := by
  cbv

theorem optimize_lazyOriginal : lazyOriginal.optimize 8 = .ok lazyOptimized := by
  cbv

theorem optimize_edits_lazy : lazyOriginal.Coherent ∧
    lazyOriginal.optimize 8 = .ok lazyOptimized ∧
    lazyOriginal.EditedTo lazyOptimized.program ∧ lazyOptimized.program.Coherent := by
  have hcoherent := Program.coherent_of_parse parse_lazyTokens
  exact ⟨hcoherent, optimize_lazyOriginal, optimize_edits hcoherent optimize_lazyOriginal⟩

end Lazy
end Scriptlet
