import Mathlib.Data.List.Basic
import Scriptlet.Folding.Effects
import Scriptlet.Proofs.Program.Nesting

/-!
# Edits of trees

An edit puts literals in the place of expressions and drops statements: calls, blocks of
which nothing is left, and declarations of functions.  Which calls and declarations may be
dropped is a parameter.  Everything else stays where it is, so an edited tree mentions less
than before, has no effect that was not there before, and declares every function that still
has something to do.
-/

namespace Scriptlet

/-!
# Expressions
-/

mutual

/-- Some parts of the first expression are replaced by literals at their positions. -/
inductive Expr.Simplifies : Expr -> Expr -> Prop where
  | same (e : Expr) : Simplifies e e
  | literal {e : Expr} (v : Value) : e.literal? = none -> Simplifies e (.literal e.pos v)
  | unary {pos op operand operand'} : operand.Simplifies operand' ->
      Simplifies (.unary pos op operand) (.unary pos op operand')
  | binary {pos op left left' right right'} : left.Simplifies left' -> right.Simplifies right' ->
      Simplifies (.binary pos op left right) (.binary pos op left' right')
  | call {pos f args args'} : Expr.ListSimplifies args args' ->
      Simplifies (.call pos f args) (.call pos f args')

inductive Expr.ListSimplifies : List Expr -> List Expr -> Prop where
  | nil : ListSimplifies [] []
  | cons {arg arg' rest rest'} : arg.Simplifies arg' -> ListSimplifies rest rest' ->
      ListSimplifies (arg :: rest) (arg' :: rest')

end

theorem Expr.ListSimplifies.refl : forall args : List Expr, Expr.ListSimplifies args args
  | [] => .nil
  | arg :: rest => .cons (.same arg) (.refl rest)

theorem Expr.ListSimplifies.length {args args' : List Expr}
    (h : Expr.ListSimplifies args args') : args'.length = args.length := by
  induction args generalizing args' with
  | nil =>
      cases h
      rfl
  | cons arg rest ih =>
      cases h with
      | cons _ hrest => simp [ih hrest]

theorem Expr.Simplifies.pos {e e' : Expr} (h : e.Simplifies e') : e'.pos = e.pos := by
  cases h <;> rfl

theorem Expr.Simplifies.literal?_eq_none {e e' : Expr} (h : e.Simplifies e')
    (he' : e'.literal? = none) : e.literal? = none := by
  cases h with
  | same => exact he'
  | literal v he => exact he
  | _ => rfl

mutual

theorem Expr.Simplifies.mentions_sublist : forall {e e' : Expr}, e.Simplifies e' ->
    e'.mentions.Sublist e.mentions
  | _, _, .same e => .refl _
  | _, _, .literal v _ => List.nil_sublist _
  | _, _, .unary hoperand => hoperand.mentions_sublist
  | _, _, .binary hleft hright => hleft.mentions_sublist.append hright.mentions_sublist
  | _, _, .call hargs => by
      rw [Expr.mentions, Expr.mentions, hargs.length]
      exact hargs.mentions_sublist.cons_cons _

theorem Expr.ListSimplifies.mentions_sublist : forall {args args' : List Expr},
    Expr.ListSimplifies args args' ->
    (Expr.listMentions args').Sublist (Expr.listMentions args)
  | _, _, .nil => .refl _
  | _, _, .cons harg hrest => harg.mentions_sublist.append hrest.mentions_sublist

end

theorem Expr.Simplifies.hasCall : forall {e e' : Expr}, e.Simplifies e' -> e.hasCall = false ->
    e'.hasCall = false
  | _, _, .same _, he => he
  | _, _, .literal _ _, _ => rfl
  | _, _, .unary hoperand, he => hoperand.hasCall he
  | _, _, .binary hleft hright, he => by
      rw [Expr.hasCall, Bool.or_eq_false_iff] at he ⊢
      exact ⟨hleft.hasCall he.1, hright.hasCall he.2⟩
  | _, _, .call _, he => nomatch he

/-!
# Statements
-/

/-- The functions of which calls may be dropped, and those of which declarations may be. -/
structure Drops where
  call : FunId -> Prop
  declaration : FunId -> Prop

def Drops.nothing : Drops where
  call _ := False
  declaration _ := False

structure Drops.Allows (d d' : Drops) : Prop where
  call : forall f, d.call f -> d'.call f
  declaration : forall f, d.declaration f -> d'.declaration f

def Expr.IsFalse (e : Expr) : Prop :=
  e.literal? = some (.bool false)

mutual

/-- The first statement is kept as the second.  Under a condition that became false nothing
else is changed. -/
inductive Stmt.Edited (d : Drops) : Stmt -> Stmt -> Prop where
  | constDecl {pos id} : Edited d (.constDecl pos id) (.constDecl pos id)
  | varDecl {pos id} : Edited d (.varDecl pos id none) (.varDecl pos id none)
  | initialized {pos id init init'} : init.Simplifies init' ->
      Edited d (.varDecl pos id (some init)) (.varDecl pos id (some init'))
  | funDecl {pos f} : Edited d (.funDecl pos f) (.funDecl pos f)
  | block {head body body'} : Stmt.ListEdited d body body' ->
      Edited d (.block head body) (.block head body')
  | ifThen {pos cond cond' head body body'} : cond.Simplifies cond' ->
      (cond'.IsFalse -> body' = body) -> Stmt.ListEdited d body body' ->
      Edited d (.ifThen pos cond head body) (.ifThen pos cond' head body')
  | whileDo {pos cond cond' head body body'} : cond.Simplifies cond' ->
      (cond'.IsFalse -> body' = body) -> Stmt.ListEdited d body body' ->
      Edited d (.whileDo pos cond head body) (.whileDo pos cond' head body')
  | ret {pos value value'} : value.Simplifies value' ->
      Edited d (.ret pos value) (.ret pos value')
  | assign {pos target value value'} : value.Simplifies value' ->
      Edited d (.assign pos target value) (.assign pos target value')
  | call {pos f args args'} : Expr.ListSimplifies args args' ->
      Edited d (.call pos f args) (.call pos f args')
  | async {pos target f args args'} : Expr.ListSimplifies args args' ->
      Edited d (.async pos target f args) (.async pos target f args')
  | await {pos target} : Edited d (.await pos target) (.await pos target)

/-- The second list is what is left of the first, in the same order. -/
inductive Stmt.ListEdited (d : Drops) : List Stmt -> List Stmt -> Prop where
  | nil : ListEdited d [] []
  | keep {s s' rest rest'} : s.Edited d s' -> ListEdited d rest rest' ->
      ListEdited d (s :: rest) (s' :: rest')
  | dropCall {pos f args rest rest'} : d.call f -> ListEdited d rest rest' ->
      ListEdited d (.call pos f args :: rest) rest'
  | dropBlock {head body rest rest'} : ListEdited d body [] -> ListEdited d rest rest' ->
      ListEdited d (.block head body :: rest) rest'
  | dropDeclaration {pos f rest rest'} : d.declaration f -> ListEdited d rest rest' ->
      ListEdited d (.funDecl pos f :: rest) rest'

end

section Edited

variable {d d' : Drops}

mutual

theorem Stmt.Edited.refl (d : Drops) : forall s : Stmt, s.Edited d s
  | .constDecl _ _ => .constDecl
  | .varDecl _ _ none => .varDecl
  | .varDecl _ _ (some init) => .initialized (.same init)
  | .funDecl _ _ => .funDecl
  | .block _ body => .block (Stmt.ListEdited.refl d body)
  | .ifThen _ cond _ body => .ifThen (.same cond) (fun _ => rfl) (Stmt.ListEdited.refl d body)
  | .whileDo _ cond _ body => .whileDo (.same cond) (fun _ => rfl) (Stmt.ListEdited.refl d body)
  | .ret _ value => .ret (.same value)
  | .assign _ _ value => .assign (.same value)
  | .call _ _ args => .call (.refl args)
  | .async _ _ _ args => .async (.refl args)
  | .await _ _ => .await

theorem Stmt.ListEdited.refl (d : Drops) : forall body : List Stmt, Stmt.ListEdited d body body
  | [] => .nil
  | s :: rest => .keep (Stmt.Edited.refl d s) (Stmt.ListEdited.refl d rest)

end

mutual

theorem Stmt.Edited.mono (h : d.Allows d') : forall {s s' : Stmt}, s.Edited d s' -> s.Edited d' s'
  | _, _, .constDecl => .constDecl
  | _, _, .varDecl => .varDecl
  | _, _, .initialized hinit => .initialized hinit
  | _, _, .funDecl => .funDecl
  | _, _, .block hbody => .block (hbody.mono h)
  | _, _, .ifThen hcond hfalse hbody => .ifThen hcond hfalse (hbody.mono h)
  | _, _, .whileDo hcond hfalse hbody => .whileDo hcond hfalse (hbody.mono h)
  | _, _, .ret hvalue => .ret hvalue
  | _, _, .assign hvalue => .assign hvalue
  | _, _, .call hargs => .call hargs
  | _, _, .async hargs => .async hargs
  | _, _, .await => .await

theorem Stmt.ListEdited.mono (h : d.Allows d') : forall {body body' : List Stmt},
    Stmt.ListEdited d body body' -> Stmt.ListEdited d' body body'
  | _, _, .nil => .nil
  | _, _, .keep hs hrest => .keep (hs.mono h) (hrest.mono h)
  | _, _, .dropCall hf hrest => .dropCall (h.call _ hf) (hrest.mono h)
  | _, _, .dropBlock hbody hrest => .dropBlock (hbody.mono h) (hrest.mono h)
  | _, _, .dropDeclaration hf hrest => .dropDeclaration (h.declaration _ hf) (hrest.mono h)

end

theorem Stmt.ListEdited.append : forall {first first' rest rest' : List Stmt},
    Stmt.ListEdited d first first' -> Stmt.ListEdited d rest rest' ->
    Stmt.ListEdited d (first ++ rest) (first' ++ rest')
  | _, _, _, _, .nil, hrest => hrest
  | _, _, _, _, .keep hs hmore, hrest => .keep hs (hmore.append hrest)
  | _, _, _, _, .dropCall hf hmore, hrest => .dropCall hf (hmore.append hrest)
  | _, _, _, _, .dropBlock hbody hmore, hrest => .dropBlock hbody (hmore.append hrest)
  | _, _, _, _, .dropDeclaration hf hmore, hrest => .dropDeclaration hf (hmore.append hrest)

theorem Stmt.Edited.global? {s s' : Stmt} (h : s.Edited d s') : s'.global? = s.global? := by
  cases h <;> rfl

mutual

theorem Stmt.Edited.mentions_sublist : forall {s s' : Stmt}, s.Edited d s' ->
    s'.mentions.Sublist s.mentions
  | _, _, .constDecl => .refl _
  | _, _, .varDecl => .refl _
  | _, _, .initialized hinit => hinit.mentions_sublist.cons_cons _
  | _, _, .funDecl => .refl _
  | _, _, .block hbody => hbody.mentions_sublist
  | _, _, .ifThen hcond _ hbody => hcond.mentions_sublist.append hbody.mentions_sublist
  | _, _, .whileDo hcond _ hbody => hcond.mentions_sublist.append hbody.mentions_sublist
  | _, _, .ret hvalue => hvalue.mentions_sublist
  | _, _, .assign hvalue => hvalue.mentions_sublist.cons_cons _
  | _, _, .call hargs => by
      rw [Stmt.mentions, Stmt.mentions, hargs.length]
      exact hargs.mentions_sublist.cons_cons _
  | _, _, .async hargs => by
      rw [Stmt.mentions, Stmt.mentions, hargs.length]
      exact hargs.mentions_sublist.cons_cons _
  | _, _, .await => .refl _

theorem Stmt.ListEdited.mentions_sublist : forall {body body' : List Stmt},
    Stmt.ListEdited d body body' -> (Stmt.listMentions body').Sublist (Stmt.listMentions body)
  | _, _, .nil => .refl _
  | _, _, .keep hs hrest => hs.mentions_sublist.append hrest.mentions_sublist
  | _, _, .dropCall _ hrest => hrest.mentions_sublist.trans (List.sublist_append_right _ _)
  | _, _, .dropBlock _ hrest => hrest.mentions_sublist.trans (List.sublist_append_right _ _)
  | _, _, .dropDeclaration _ hrest =>
      hrest.mentions_sublist.trans (List.sublist_append_right _ _)

end

/-!
# Effects
-/

section Effects

variable {p q : Program} {f : FunId}

mutual

theorem Stmt.Edited.effects (hvars : q.vars = p.vars) : forall {s s' : Stmt}, s.Edited d s' ->
    p.stmtHasEffects f s = false -> q.stmtHasEffects f s' = false
  | _, _, .constDecl, _ => rfl
  | _, _, .varDecl, _ => rfl
  | _, _, .initialized hinit, hs => hinit.hasCall hs
  | _, _, .funDecl, _ => rfl
  | _, _, .block hbody, hs => hbody.effects hvars hs
  | _, _, .ifThen hcond _ hbody, hs => by
      rw [Program.stmtHasEffects, Bool.or_eq_false_iff] at hs ⊢
      exact ⟨hcond.hasCall hs.1, hbody.effects hvars hs.2⟩
  | _, _, .whileDo hcond _ hbody, hs => by
      rw [Program.stmtHasEffects, Bool.or_eq_false_iff] at hs ⊢
      exact ⟨hcond.hasCall hs.1, hbody.effects hvars hs.2⟩
  | _, _, .ret hvalue, hs => hvalue.hasCall hs
  | _, _, .assign hvalue, hs => by
      rw [Program.stmtHasEffects, Bool.or_eq_false_iff] at hs ⊢
      refine ⟨?_, hvalue.hasCall hs.2⟩
      rw [Program.variableAt, hvars]
      exact hs.1
  | _, _, .call _, hs => nomatch hs
  | _, _, .async _, hs => nomatch hs
  | _, _, .await, hs => nomatch hs

theorem Stmt.ListEdited.effects (hvars : q.vars = p.vars) : forall {body body' : List Stmt},
    Stmt.ListEdited d body body' -> p.stmtsHaveEffects f body = false ->
    q.stmtsHaveEffects f body' = false
  | _, _, .nil, _ => rfl
  | _, _, .keep hs hrest, hbody => by
      rw [Program.stmtsHaveEffects, Bool.or_eq_false_iff] at hbody ⊢
      exact ⟨hs.effects hvars hbody.1, hrest.effects hvars hbody.2⟩
  | _, _, .dropCall _ hrest, hbody => by
      rw [Program.stmtsHaveEffects, Bool.or_eq_false_iff] at hbody
      exact hrest.effects hvars hbody.2
  | _, _, .dropBlock _ hrest, hbody => by
      rw [Program.stmtsHaveEffects, Bool.or_eq_false_iff] at hbody
      exact hrest.effects hvars hbody.2
  | _, _, .dropDeclaration _ hrest, hbody => by
      rw [Program.stmtsHaveEffects, Bool.or_eq_false_iff] at hbody
      exact hrest.effects hvars hbody.2

end

end Effects

/-!
# Declarations
-/

theorem Stmt.ListEdited.of_nil {body : List Stmt} (h : Stmt.ListEdited d [] body) : body = [] := by
  cases h
  rfl

mutual

theorem Expr.declares_no_function (f : FunId) : forall e : Expr,
    .declareFunction f ∉ e.mentions
  | .literal _ _ => List.not_mem_nil
  | .const _ _ => by simp [Expr.mentions]
  | .var _ _ => by simp [Expr.mentions]
  | .unary _ _ operand => operand.declares_no_function f
  | .binary _ _ left right => by
      rw [Expr.mentions, List.mem_append, not_or]
      exact ⟨left.declares_no_function f, right.declares_no_function f⟩
  | .call _ _ args => by
      rw [Expr.mentions, List.mem_cons, not_or]
      exact ⟨nofun, Expr.list_declares_no_function f args⟩

theorem Expr.list_declares_no_function (f : FunId) : forall args : List Expr,
    .declareFunction f ∉ Expr.listMentions args
  | [] => List.not_mem_nil
  | arg :: rest => by
      rw [Expr.listMentions, List.mem_append, not_or]
      exact ⟨arg.declares_no_function f, Expr.list_declares_no_function f rest⟩

end

section Declares

variable {f : FunId}

mutual

theorem Stmt.Edited.declares (hf : ¬d.declaration f) : forall {s s' : Stmt}, s.Edited d s' ->
    .declareFunction f ∈ s.mentions -> .declareFunction f ∈ s'.mentions
  | _, _, .constDecl, hmem => hmem
  | _, _, .varDecl, hmem => hmem
  | _, _, .initialized _, hmem => by
      rcases List.mem_cons.mp hmem with heq | hinit
      · cases heq
      · exact absurd hinit (Expr.declares_no_function f _)
  | _, _, .funDecl, hmem => hmem
  | _, _, .block hbody, hmem => hbody.declares hf hmem
  | _, _, .ifThen _ _ hbody, hmem => by
      rcases List.mem_append.mp hmem with hcond | hmem
      · exact absurd hcond (Expr.declares_no_function f _)
      · exact List.mem_append_right _ (hbody.declares hf hmem)
  | _, _, .whileDo _ _ hbody, hmem => by
      rcases List.mem_append.mp hmem with hcond | hmem
      · exact absurd hcond (Expr.declares_no_function f _)
      · exact List.mem_append_right _ (hbody.declares hf hmem)
  | _, _, .ret _, hmem => absurd hmem (Expr.declares_no_function f _)
  | _, _, .assign _, hmem => by
      rcases List.mem_cons.mp hmem with heq | hvalue
      · cases heq
      · exact absurd hvalue (Expr.declares_no_function f _)
  | _, _, .call _, hmem => by
      rcases List.mem_cons.mp hmem with heq | hargs
      · cases heq
      · exact absurd hargs (Expr.list_declares_no_function f _)
  | _, _, .async _, hmem => by
      rcases List.mem_cons.mp hmem with heq | hargs
      · cases heq
      · exact absurd hargs (Expr.list_declares_no_function f _)
  | _, _, .await, hmem => hmem

theorem Stmt.ListEdited.declares (hf : ¬d.declaration f) : forall {body body' : List Stmt},
    Stmt.ListEdited d body body' -> .declareFunction f ∈ Stmt.listMentions body ->
    .declareFunction f ∈ Stmt.listMentions body'
  | _, _, .nil, hmem => hmem
  | _, _, .keep hs hrest, hmem => by
      rcases List.mem_append.mp hmem with hmem | hmem
      · exact List.mem_append_left _ (hs.declares hf hmem)
      · exact List.mem_append_right _ (hrest.declares hf hmem)
  | _, _, .dropCall _ hrest, hmem => by
      rcases List.mem_append.mp hmem with hmem | hmem
      · rcases List.mem_cons.mp hmem with heq | hargs
        · cases heq
        · exact absurd hargs (Expr.list_declares_no_function f _)
      · exact hrest.declares hf hmem
  | _, _, .dropBlock hbody hrest, hmem => by
      rcases List.mem_append.mp hmem with hmem | hmem
      · exact absurd (hbody.declares hf hmem) List.not_mem_nil
      · exact hrest.declares hf hmem
  | _, _, .dropDeclaration hg hrest, hmem => by
      rcases List.mem_append.mp hmem with hmem | hmem
      · cases List.mem_singleton.mp hmem
        exact absurd hg hf
      · exact hrest.declares hf hmem

end

end Declares

end Edited
end Scriptlet
