import Scriptlet.Proofs.Folding.KnownValues

/-!
# Bodies while they are folded

The pass takes the body of a function out of the table, folds it, and puts it back.
Statements are only dropped from it, so whatever it declares still belongs to the
function, and the tables agree at every moment of the pass.
-/

namespace Scriptlet

/-!
# Declarations of a tree
-/

def DeclaresFrom (ms ms' : List Mention) : Prop :=
  forall id, .declareVar id ∈ ms -> .declareVar id ∈ ms'

theorem DeclaresFrom.refl (ms : List Mention) : DeclaresFrom ms ms :=
  fun _ hid => hid

theorem DeclaresFrom.append {ms ms' ns ns' : List Mention} (hm : DeclaresFrom ms ms')
    (hn : DeclaresFrom ns ns') : DeclaresFrom (ms ++ ns) (ms' ++ ns') := by
  intro id hid
  rcases List.mem_append.mp hid with hid | hid
  · exact List.mem_append_left _ (hm id hid)
  · exact List.mem_append_right _ (hn id hid)

theorem DeclaresFrom.append_left {ms ms' : List Mention} (h : DeclaresFrom ms ms')
    (ns : List Mention) : DeclaresFrom ms (ns ++ ms') :=
  fun id hid => List.mem_append_right ns (h id hid)

theorem DeclaresFrom.cons (m : Mention) {ms ms' : List Mention} (h : DeclaresFrom ms ms') :
    DeclaresFrom (m :: ms) (m :: ms') :=
  (DeclaresFrom.refl [m]).append h

theorem declaresFrom_nil (ms : List Mention) : DeclaresFrom [] ms := by
  intro id hid
  cases hid

theorem DeclaresOwn.from {p : Program} {f : FunId} {ms ms' : List Mention}
    (h : DeclaresOwn p f ms') (hms : DeclaresFrom ms ms') : DeclaresOwn p f ms :=
  fun id hid => h id (hms id hid)

mutual

theorem Expr.declares_nothing (ms : List Mention) : forall e : Expr, DeclaresFrom e.mentions ms
  | .literal _ _ => declaresFrom_nil ms
  | .const _ _ => fun _ hid => nomatch List.mem_singleton.mp hid
  | .var _ _ => fun _ hid => nomatch List.mem_singleton.mp hid
  | .unary _ _ operand => operand.declares_nothing ms
  | .binary _ _ left right => by
      intro id hid
      rcases List.mem_append.mp hid with hid | hid
      · exact left.declares_nothing ms id hid
      · exact right.declares_nothing ms id hid
  | .call _ _ args => by
      intro id hid
      rcases List.mem_cons.mp hid with hid | hid
      · cases hid
      · exact Expr.list_declares_nothing ms args id hid

theorem Expr.list_declares_nothing (ms : List Mention) : forall args : List Expr,
    DeclaresFrom (Expr.listMentions args) ms
  | [] => declaresFrom_nil ms
  | arg :: rest => by
      intro id hid
      rcases List.mem_append.mp hid with hid | hid
      · exact arg.declares_nothing ms id hid
      · exact Expr.list_declares_nothing ms rest id hid

end

/-!
# Tables
-/

structure Program.Kept (p p' : Program) : Prop where
  sound : p'.Sound
  vars : p'.vars = p.vars

theorem Program.Kept.refl {p : Program} (h : p.Sound) : p.Kept p :=
  ⟨h, rfl⟩

theorem Program.Kept.trans {p q r : Program} (h : p.Kept q) (h' : q.Kept r) : p.Kept r :=
  ⟨h'.sound, h'.vars.trans h.vars⟩

theorem Program.Sound.of_eq {p p' : Program} (h : p.Sound) (heq : p' = p) : p.Kept p' := by
  rw [heq]
  exact .refl h

theorem DeclaresOwn.of_vars {p p' : Program} {f : FunId} {ms : List Mention}
    (h : DeclaresOwn p f ms) (hvars : p'.vars = p.vars) : DeclaresOwn p' f ms := by
  intro id hid
  have hvar : p'.variableAt id = p.variableAt id := by
    rw [Program.variableAt, hvars]
    rfl
  rw [hvar]
  exact h id hid

theorem Program.Sound.withBody {p : Program} (h : p.Sound) {f : FunId} {body : List Stmt}
    (hbody : DeclaresOwn p f (Stmt.listMentions body)) : p.Kept (Fold.withBody p f body) := by
  unfold Fold.withBody
  cases hblock : (p.function f).body with
  | none => exact .refl h
  | some block =>
      have hf := Program.lt_of_body hblock
      have hset : p.Kept (p.setBody f { block with body := body }) := by
        refine ⟨⟨h.tables.setBody hf _, ?_⟩, rfl⟩
        intro g
        by_cases hg : g = f
        · rw [hg, Program.mentionsOf_setBody_self hf]
          exact hbody.of_vars rfl
        · rw [Program.mentionsOf_setBody_ne hf _ hg]
          exact (h.own g).of_vars rfl
      exact hset

namespace Fold

/-!
# Parts of statements
-/

section Parts

variable {s : FoldState} {mode : FoldMode}

theorem yields_slot (hs : s.program.Sound) (e : Expr) :
    Yields (slot mode e) s fun _ s' => s'.program = s.program := by
  apply (yields_expr mode e hs).bind
  intro x s₁ hx
  apply (yields_settleSlot x s₁).mono
  intro _ s' hy
  exact hy.1.trans hx.program

theorem yields_assign (id : VarId) (value : FoldedExpr) (s : FoldState) :
    Yields (assign id value) s fun _ s' => s'.program = s.program := by
  unfold assign
  cases value.known with
  | none => exact rfl
  | some k =>
      apply Ensures.get_bind
      apply Ensures.ite
      · intro _
        exact rfl
      · intro _
        trivial

theorem unchanged_checkReturn (value : FoldedExpr) (s : FoldState) :
    Yields (checkReturn mode value) s fun _ s' => s' = s := by
  unfold checkReturn
  cases value.known with
  | none => exact rfl
  | some k =>
      cases mode.folding with
      | nil => exact rfl
      | cons f rest =>
          apply Ensures.get_bind
          apply Ensures.ite
          · intro _
            trivial
          · intro _
            exact rfl

theorem yields_checkReturn (value : FoldedExpr) (s : FoldState) :
    Yields (checkReturn mode value) s fun _ s' => s'.program = s.program :=
  (unchanged_checkReturn value s).mono fun _ _ => congrArg FoldState.program

theorem yields_asyncArguments (args : List Expr) {s : FoldState} (hs : s.program.Sound) :
    Yields (asyncArguments mode args) s fun _ s' => s'.program = s.program := by
  induction args generalizing s with
  | nil => exact rfl
  | cons arg rest ih =>
      apply (yields_slot hs arg).bind
      intro x s₁ hx
      apply (ih (hx ▸ hs)).bind
      intro trees s₂ hrest
      exact hrest.trans hx

end Parts

/-!
# Statements
-/

end Fold

def FoldedStmt.mentions : FoldedStmt -> List Mention
  | keep s => s.mentions
  | remove => []
  | giveUp => []

/-- What folding a statement does to the tables, and what is left of the statement. -/
structure StmtFolded (before : List Mention) (s : FoldState) (after : List Mention)
    (s' : FoldState) : Prop where
  kept : s.program.Kept s'.program
  declares : DeclaresFrom after before

namespace Fold

section Statements

variable {s : FoldState} {mode : FoldMode} {enter : FunId -> Fold Unit}

theorem keeps_callStmt (hs : s.program.Sound) (pos : Pos) (f : FunId) (args : List Expr) :
    Yields (callStmt mode pos f args) s fun r s' =>
      StmtFolded (Stmt.call pos f args).mentions s r.mentions s' := by
  apply (yields_arguments mode args hs).bind
  intro xs s₁ hxs
  apply (yields_callWith (hxs.program ▸ hs) pos f xs).bind
  intro call s₂ hcall
  have hprogram : s₂.program = s.program := hcall.program.trans hxs.program
  have hkeep :
      DeclaresFrom (Stmt.call pos f xs.trees).mentions (Stmt.call pos f args).mentions := by
    intro id hid
    rcases List.mem_cons.mp hid with hid | hid
    · cases hid
    · exact Expr.list_declares_nothing _ xs.trees id hid
  cases call with
  | none =>
      apply Ensures.ite
      · intro _
        exact ⟨hs.of_eq hprogram, declaresFrom_nil _⟩
      · intro _
        exact ⟨hs.of_eq hprogram, hkeep⟩
  | some c =>
      apply Ensures.ite
      · intro _
        exact ⟨hs.of_eq hprogram, declaresFrom_nil _⟩
      · intro _
        exact ⟨hs.of_eq hprogram, hkeep⟩

theorem keeps_asyncStmt (hs : s.program.Sound) (pos : Pos) (target : VarId) (f : FunId)
    (args : List Expr) :
    Yields (asyncStmt mode pos target f args) s fun r s' =>
      StmtFolded (Stmt.async pos target f args).mentions s r.mentions s' := by
  apply Ensures.ite
  · intro _
    exact ⟨.refl hs, declaresFrom_nil _⟩
  · intro _
    apply (yields_asyncArguments args hs).bind
    intro trees s₁ hprogram
    have hkeep : DeclaresFrom (Stmt.async pos target f trees).mentions
        (Stmt.async pos target f args).mentions := by
      intro id hid
      rcases List.mem_cons.mp hid with hid | hid
      · cases hid
      · exact Expr.list_declares_nothing _ trees id hid
    have hforget : Yields (forget target) s₁ fun _ s' => s'.program = s.program := hprogram
    apply hforget.bind
    intro _ s₂ hprogram
    apply Ensures.get_bind
    apply Ensures.ite
    · intro _
      exact ⟨hs.of_eq hprogram, hkeep⟩
    · intro _
      exact ⟨hs.of_eq hprogram, hkeep⟩

def KeepsTables (enter : FunId -> Fold Unit) : Prop :=
  forall (f : FunId) (s : FoldState), s.program.Sound ->
    Yields (enter f) s fun _ s' => s.program.Kept s'.program

theorem keeps_funDecl (henter : KeepsTables enter) (hs : s.program.Sound) (pos : Pos) (f : FunId) :
    Yields (funDecl enter pos f) s fun r s' =>
      StmtFolded (Stmt.funDecl pos f).mentions s r.mentions s' := by
  apply (henter f s hs).bind
  intro _ s₁ hkept
  apply Ensures.get_bind
  cases (s₁.program.function f).body with
  | none => exact ⟨hkept, .refl _⟩
  | some block =>
      apply Ensures.ite
      · intro _
        exact ⟨hkept, declaresFrom_nil _⟩
      · intro _
        exact ⟨hkept, .refl _⟩

theorem keeps_endLoop {before : FoldState}
    (hkept : before.program.Kept s.program) (pos : Pos) (cond : Expr) (head : BlockHead)
    (body : List Stmt) (result : FoldedLoop)
    (hresult : forall newCond newBody, result = .folded newCond newBody ->
      DeclaresFrom (Stmt.listMentions newBody) (Stmt.listMentions body)) :
    Yields (endLoop mode before pos cond head body result) s fun r s' =>
      StmtFolded (Stmt.whileDo pos cond head body).mentions before r.mentions s' := by
  have hfinish : forall (newCond : Expr) (newBody : List Stmt) (t : FoldState),
      before.program.Kept t.program ->
      DeclaresFrom (Stmt.listMentions newBody) (Stmt.listMentions body) ->
      Yields (do
        forgetAssigned (Assigned.byStmts newBody)
        if newCond.hasCall then
          forgetGlobals
        return FoldedStmt.keep (.whileDo pos newCond head newBody)) t fun r s' =>
        StmtFolded (Stmt.whileDo pos cond head body).mentions before r.mentions s' := by
    intro newCond newBody t ht hdeclares
    have hloop : DeclaresFrom (Stmt.whileDo pos newCond head newBody).mentions
        (Stmt.whileDo pos cond head body).mentions :=
      (newCond.declares_nothing _).append hdeclares
    apply Ensures.modify_bind
    apply Ensures.ite
    · intro _
      exact ⟨ht, hloop⟩
    · intro _
      exact ⟨ht, hloop⟩
  cases result with
  | folded newCond newBody => exact hfinish newCond newBody _ hkept (hresult _ _ rfl)
  | neverEntered => exact hfinish cond body _ hkept (.refl _)
  | gaveUp =>
      apply Ensures.modify_bind
      apply Ensures.ite
      · intro _
        exact ⟨hkept, declaresFrom_nil _⟩
      · intro _
        exact hfinish cond body _ hkept (.refl _)

end Statements

def left (body : List Stmt) (result : Option (List Stmt)) : List Mention :=
  Stmt.listMentions (result.getD body)

section Trees

variable {enter : FunId -> Fold Unit}

mutual

theorem keeps_stmt (henter : KeepsTables enter) (mode : FoldMode) :
    forall (st : Stmt) {s : FoldState}, s.program.Sound ->
    Yields (stmt mode enter st) s fun r s' => StmtFolded st.mentions s r.mentions s'
  | .constDecl _ _, _, hs => ⟨.refl hs, .refl _⟩
  | .varDecl _ _ none, _, hs => ⟨.refl hs, .refl _⟩
  | .varDecl pos id (some init), s, hs => by
      apply (yields_slot hs init).bind
      intro x s₁ hx
      apply Ensures.ite
      · intro _
        exact ⟨hs.of_eq hx, declaresFrom_nil _⟩
      · intro _
        apply (yields_assign id x s₁).bind
        intro _ s₂ hassign
        exact ⟨hs.of_eq (hassign.trans hx), .cons _ (x.tree.declares_nothing _)⟩
  | .assign pos id value, s, hs => by
      apply (yields_slot hs value).bind
      intro x s₁ hx
      apply Ensures.ite
      · intro _
        exact ⟨hs.of_eq hx, declaresFrom_nil _⟩
      · intro _
        apply (yields_assign id x s₁).bind
        intro _ s₂ hassign
        exact ⟨hs.of_eq (hassign.trans hx), .cons _ (x.tree.declares_nothing _)⟩
  | .funDecl pos f, _, hs => keeps_funDecl henter hs pos f
  | .block head body, s, hs => by
      apply (keeps_stmts henter mode body hs).bind
      intro result s₁ hbody
      cases result with
      | none => exact ⟨hbody.kept, declaresFrom_nil _⟩
      | some body' =>
          cases body' with
          | nil => exact ⟨hbody.kept, declaresFrom_nil _⟩
          | cons first rest => exact hbody
  | .ifThen pos cond head body, s, hs => by
      apply (yields_slot hs cond).bind
      intro c s₁ hc
      have hkept₁ := hs.of_eq hc
      cases hknown : c.known with
      | none =>
          apply Ensures.ite
          · intro _
            exact ⟨hkept₁, declaresFrom_nil _⟩
          · intro _
            apply (keeps_stmts henter mode body hkept₁.sound).bind
            intro result s₂ hbody
            cases result with
            | none => exact ⟨hkept₁.trans hbody.kept, declaresFrom_nil _⟩
            | some body' =>
                exact ⟨hkept₁.trans hbody.kept, (c.tree.declares_nothing _).append hbody.declares⟩
      | some k =>
          obtain ⟨value, elidable⟩ := k
          cases value with
          | int n => trivial
          | float x => trivial
          | bool b =>
              cases b with
              | false => exact ⟨hkept₁, (c.tree.declares_nothing _).append (.refl _)⟩
              | true =>
                  apply (keeps_stmts henter mode body hkept₁.sound).bind
                  intro result s₂ hbody
                  cases result with
                  | none => exact ⟨hkept₁.trans hbody.kept, declaresFrom_nil _⟩
                  | some body' =>
                      exact ⟨hkept₁.trans hbody.kept,
                        (c.tree.declares_nothing _).append hbody.declares⟩
  | .whileDo pos cond head body, s, hs => by
      apply Ensures.get_bind
      apply (yields_slot hs cond).bind
      intro c s₁ hc
      have hkept₁ := hs.of_eq hc
      cases hknown : c.known with
      | none => exact keeps_endLoop hkept₁ pos cond head body _ nofun
      | some k =>
          obtain ⟨value, elidable⟩ := k
          cases value with
          | int n => trivial
          | float x => trivial
          | bool b =>
              cases b with
              | false => exact keeps_endLoop hkept₁ pos cond head body _ nofun
              | true =>
                  apply (keeps_stmts henter _ body hkept₁.sound).bind
                  intro result s₂ hbody
                  have hkept₂ := hkept₁.trans hbody.kept
                  cases result with
                  | none => exact keeps_endLoop hkept₂ pos cond head body _ nofun
                  | some body' =>
                      apply keeps_endLoop hkept₂ pos cond head body
                      intro newCond newBody heq
                      cases heq
                      exact hbody.declares
  | .ret pos value, s, hs => by
      apply (yields_slot hs value).bind
      intro x s₁ hx
      apply Ensures.ite
      · intro _
        exact ⟨hs.of_eq hx, declaresFrom_nil _⟩
      · intro _
        apply (yields_checkReturn x s₁).bind
        intro _ s₂ hcheck
        exact ⟨hs.of_eq (hcheck.trans hx), x.tree.declares_nothing _⟩
  | .call pos f args, _, hs => keeps_callStmt hs pos f args
  | .async pos target f args, _, hs => keeps_asyncStmt hs pos target f args
  | .await pos target, s, hs => by
      apply Ensures.ite
      · intro _
        exact ⟨.refl hs, declaresFrom_nil _⟩
      · intro _
        exact ⟨.refl hs, .refl _⟩

theorem keeps_stmts (henter : KeepsTables enter) (mode : FoldMode) :
    forall (body : List Stmt) {s : FoldState},
    s.program.Sound ->
    Yields (stmts mode enter body) s fun result s' =>
      StmtFolded (Stmt.listMentions body) s (left body result) s'
  | [], _, hs => ⟨.refl hs, .refl _⟩
  | st :: rest, s, hs => by
      apply (keeps_stmt henter mode st hs).bind
      intro first s₁ hfirst
      have hkept₁ := hfirst.kept
      cases first with
      | giveUp => exact ⟨hkept₁, .refl _⟩
      | remove =>
          apply (keeps_stmts henter mode rest hkept₁.sound).mono
          intro result s₂ hrest
          refine ⟨hkept₁.trans hrest.kept, ?_⟩
          cases result with
          | none => exact .refl _
          | some rest' => exact hrest.declares.append_left st.mentions
      | keep st' =>
          apply (keeps_stmts henter mode rest hkept₁.sound).bind
          intro result s₂ hrest
          have hkept₂ := hkept₁.trans hrest.kept
          cases result with
          | none => exact ⟨hkept₂, .refl _⟩
          | some rest' => exact ⟨hkept₂, hfirst.declares.append hrest.declares⟩

end

end Trees

/-!
# Functions
-/

def entered (s : FoldState) (f : FunId) : FoldState :=
  { s with program := withBody s.program f [], known := .empty }

def bodyMode (quota : Nat) (folding : List FunId) (f : FunId) : FoldMode :=
  { quota := quota, constantOnly := false, folding := f :: folding }

theorem kept_entered {s : FoldState} (hs : s.program.Sound) (f : FunId) :
    s.program.Kept (entered s f).program :=
  hs.withBody ((hs.own f).from (declaresFrom_nil _) : DeclaresOwn _ f (Stmt.listMentions []))

theorem keeps_functionWithin (quota : Nat) (depth : Nat) : forall folding : List FunId,
    KeepsTables (functionWithin quota depth folding) := by
  -- By induction on the number of bodies that may still be opened: while a body is out of the
  -- table, the functions below it are entered with one less.
  induction depth with
  | zero => exact fun _ _ _ hs => .refl hs
  | succ depth ih =>
      intro folding f s hs
      have hempty := kept_entered hs f
      apply Ensures.get_bind
      apply Ensures.set_bind
      apply (keeps_stmts (ih (f :: folding)) (bodyMode quota folding f) (s.program.bodyOf f)
        (s := entered s f) hempty.sound).bind
      intro result s₂ hbody
      have hkept := hempty.trans hbody.kept
      have hown : DeclaresOwn s₂.program f (Stmt.listMentions (result.getD (s.program.bodyOf f))) :=
        ((hs.own f).from hbody.declares).of_vars hkept.vars
      exact hkept.trans (hkept.sound.withBody hown)

end Fold
end Scriptlet
