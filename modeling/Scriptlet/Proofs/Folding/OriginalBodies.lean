import Scriptlet.Proofs.Folding.KnownTypes
import Scriptlet.Proofs.Folding.Replacements
import Scriptlet.Proofs.Program.Nesting

/-!
# Bodies that the pass has not come to

The pass folds the body of a function where it comes by the declaration.  Every function is
declared once, so until then the body is the one of the original program, and all that the
pass ever works on stands in the text of the original program.
-/

namespace Scriptlet

/-!
# Pieces of a text
-/

namespace FoldTask

def mentions : FoldTask -> List Mention
  | .stmts body => Stmt.listMentions body
  | .stmt s => s.mentions
  | .arguments args => Expr.listMentions args
  | .expr e => e.mentions

/-- The second piece is a part of the first. -/
inductive Part : FoldTask -> FoldTask -> Prop where
  | first {s rest} : Part (.stmts (s :: rest)) (.stmt s)
  | rest {s rest} : Part (.stmts (s :: rest)) (.stmts rest)
  | initializer {pos id init} : Part (.stmt (.varDecl pos id (some init))) (.expr init)
  | assigned {pos id value} : Part (.stmt (.assign pos id value)) (.expr value)
  | returned {pos value} : Part (.stmt (.ret pos value)) (.expr value)
  | block {head body} : Part (.stmt (.block head body)) (.stmts body)
  | condition {pos cond head body} : Part (.stmt (.ifThen pos cond head body)) (.expr cond)
  | branch {pos cond head body} : Part (.stmt (.ifThen pos cond head body)) (.stmts body)
  | loopCondition {pos cond head body} : Part (.stmt (.whileDo pos cond head body)) (.expr cond)
  | loopBody {pos cond head body} : Part (.stmt (.whileDo pos cond head body)) (.stmts body)
  | callArguments {pos f args} : Part (.stmt (.call pos f args)) (.arguments args)
  | asyncArguments {pos target f args} :
      Part (.stmt (.async pos target f args)) (.arguments args)
  | firstArgument {arg rest} : Part (.arguments (arg :: rest)) (.expr arg)
  | restArguments {arg rest} : Part (.arguments (arg :: rest)) (.arguments rest)
  | operand {pos op operand} : Part (.expr (.unary pos op operand)) (.expr operand)
  | left {pos op left right} : Part (.expr (.binary pos op left right)) (.expr left)
  | right {pos op left right} : Part (.expr (.binary pos op left right)) (.expr right)
  | nestedArguments {pos f args} : Part (.expr (.call pos f args)) (.arguments args)

theorem Part.sublist {a b : FoldTask} (h : a.Part b) : b.mentions.Sublist a.mentions := by
  cases h with
  | first => exact List.sublist_append_left _ _
  | rest => exact List.sublist_append_right _ _
  | initializer => exact List.sublist_cons_self _ _
  | assigned => exact List.sublist_cons_self _ _
  | returned => exact .refl _
  | block => exact .refl _
  | condition => exact List.sublist_append_left _ _
  | branch => exact List.sublist_append_right _ _
  | loopCondition => exact List.sublist_append_left _ _
  | loopBody => exact List.sublist_append_right _ _
  | callArguments => exact List.sublist_cons_self _ _
  | asyncArguments => exact List.sublist_cons_self _ _
  | firstArgument => exact List.sublist_append_left _ _
  | restArguments => exact List.sublist_append_right _ _
  | operand => exact .refl _
  | left => exact List.sublist_append_left _ _
  | right => exact List.sublist_append_right _ _
  | nestedArguments => exact List.sublist_cons_self _ _

end FoldTask

namespace Program

def textOf (p : Program) : Option FunId -> List Stmt
  | none => p.root
  | some f => p.bodyOf f

end Program

/-- The piece stands in the body of the function, or else at the outermost level. -/
def FoldTask.StandsIn (p : Program) (owner : Option FunId) (task : FoldTask) : Prop :=
  Relation.ReflTransGen FoldTask.Part (.stmts (p.textOf owner)) task

namespace FoldTask

variable {p : Program} {owner : Option FunId} {task : FoldTask}

theorem StandsIn.sublist (h : task.StandsIn p owner) :
    task.mentions.Sublist (Stmt.listMentions (p.textOf owner)) := by
  induction h with
  | refl => exact .refl _
  | tail _ hpart ih => exact hpart.sublist.trans ih

end FoldTask

/-!
# Functions below a piece
-/

namespace Program

variable {p : Program}

def Covers (p : Program) (ms : List Mention) (g : FunId) : Prop :=
  exists f, .declareFunction f ∈ ms ∧ p.Surrounds f g

theorem Covers.mono {ms ms' : List Mention} {g : FunId} (h : p.Covers ms g) (hms : ms ⊆ ms') :
    p.Covers ms' g := by
  rcases h with ⟨f, hf, hsurrounds⟩
  exact ⟨f, hms hf, hsurrounds⟩

@[simp] theorem covers_singleton {f g : FunId} :
    p.Covers [.declareFunction f] g <-> p.Surrounds f g := by
  simp [Covers]

theorem Covers.encloses {f g : FunId} (h : p.Covers (p.mentionsOf f) g) : p.Encloses f g := by
  rcases h with ⟨c, hc, hsurrounds⟩
  exact .head' hc hsurrounds

theorem Nested.surrounds_total (hnested : p.Nested) {f f' g : FunId} (h : p.Surrounds f g)
    (h' : p.Surrounds f' g) : p.Surrounds f f' ∨ p.Surrounds f' f := by
  have hunique : Relator.RightUnique (Function.swap p.Nests) := fun _ _ _ hc hc' =>
    hnested.parent hc hc'
  have hup := Relation.reflTransGen_swap.mpr h
  have hup' := Relation.reflTransGen_swap.mpr h'
  rcases Relation.ReflTransGen.total_of_right_unique hunique hup hup' with hfirst | hsecond
  · exact .inr (Relation.reflTransGen_swap.mp hfirst)
  · exact .inl (Relation.reflTransGen_swap.mp hsecond)

theorem WellNested.not_encloses (h : p.WellNested) {owner : Option FunId} {f f' : FunId}
    (hf : .declareFunction f ∈ Stmt.listMentions (p.textOf owner))
    (hf' : .declareFunction f' ∈ Stmt.listMentions (p.textOf owner)) : ¬p.Encloses f f' := by
  cases owner with
  | none => exact (h.declared hf').not_encloses f
  | some c =>
      intro hencloses
      have hsurrounds := (h.nested.encloses_iff hf' f).mp hencloses
      have hlater := (h.nested.later hf).1
      rcases hsurrounds.eq_or_encloses with heq | hbehind
      · exact Nat.lt_irrefl c (heq ▸ hlater)
      · exact Nat.lt_asymm hlater (hbehind.lt h.nested)

theorem WellNested.once_text (h : p.WellNested) (owner : Option FunId) :
    (declaredFunctions (Stmt.listMentions (p.textOf owner))).Nodup := by
  cases owner with
  | none => exact h.once
  | some c => exact h.nested.once c

end Program

theorem FoldTask.StandsIn.apart {p : Program} (hnested : p.WellNested) {owner : Option FunId}
    {s : Stmt} {rest : List Stmt} (hstands : (FoldTask.stmts (s :: rest)).StandsIn p owner)
    {g : FunId} (hs : p.Covers s.mentions g) : ¬p.Covers (Stmt.listMentions rest) g := by
  intro hrest
  rcases hs with ⟨f, hf, hsurrounds⟩
  rcases hrest with ⟨f', hf', hsurrounds'⟩
  have hsub := hstands.sublist
  have htext := hsub.subset (List.mem_append_left _ hf)
  have htext' := hsub.subset (List.mem_append_right _ hf')
  have honce : (declaredFunctions (s.mentions ++ Stmt.listMentions rest)).Nodup :=
    (hnested.once_text owner).sublist (hsub.filterMap Mention.function?)
  rw [declaredFunctions_append] at honce
  have hdisjoint := (List.nodup_append.mp honce).2.2
  have hne : f ≠ f' :=
    hdisjoint f (mem_declaredFunctions.mpr hf) f' (mem_declaredFunctions.mpr hf')
  -- Two declarations around one function would stand in each other, but both are in the text.
  rcases hnested.nested.surrounds_total hsurrounds hsurrounds' with habove | hbelow
  · exact hnested.not_encloses htext htext' (habove.eq_or_encloses.resolve_left hne)
  · exact hnested.not_encloses htext' htext (hbelow.eq_or_encloses.resolve_left hne.symm)

/-!
# Points of the pass
-/

theorem Fold.bodyOf_withBody_ne (p : Program) {f g : FunId} (hg : g ≠ f) (body : List Stmt) :
    (withBody p f body).bodyOf g = p.bodyOf g := by
  unfold withBody
  cases hblock : (p.function f).body with
  | none => rfl
  | some block =>
      have hf := Program.lt_of_body hblock
      simp only [Program.bodyOf, Program.function_setFunction p hf, if_neg hg]

theorem Program.SameTables.withBody {p q : Program} (h : p.SameTables q) (f : FunId)
    (body : List Stmt) : p.SameTables (Fold.withBody q f body) := by
  unfold Fold.withBody
  cases hblock : (q.function f).body with
  | none => exact h
  | some block =>
      have hf := Program.lt_of_body hblock
      refine ⟨h.constants, h.vars, ?_, ?_⟩
      · intro g
        rw [← h.params g, Program.function_setFunction q hf]
        split
        · rename_i hg
          rw [hg]
        · rfl
      · intro g
        rw [← h.result g, Program.function_setFunction q hf]
        split
        · rename_i hg
          rw [hg]
        · rfl

/-- The point agrees with the original program: its tables, its types, the piece that is
worked on, and the bodies that are declared below. -/
structure FoldPoint.Faithful (p : Program) (point : FoldPoint) : Prop where
  typed : point.state.Typed p
  stands : point.task.StandsIn p point.mode.folding.head?
  intact : forall g, p.Covers point.task.mentions g ->
    point.state.program.bodyOf g = p.bodyOf g

/-- What working on a piece does to the state: the bodies change that are declared below. -/
structure FoldPoint.ChangesBelow (p : Program) (ms : List Mention) (s s' : FoldState) : Prop where
  typed : s'.Typed p
  bodies : forall g, ¬p.Covers ms g -> s'.program.bodyOf g = s.program.bodyOf g

namespace FoldPoint

variable {p : Program}

theorem ChangesBelow.unchanged {ms : List Mention} {s s' : FoldState} (hs' : s'.Typed p)
    (hprogram : s'.program = s.program) : ChangesBelow p ms s s' :=
  ⟨hs', fun _ _ => by rw [hprogram]⟩

theorem ChangesBelow.trans {ms : List Mention} {s s' s'' : FoldState} (h : ChangesBelow p ms s s')
    (h' : ChangesBelow p ms s' s'') : ChangesBelow p ms s s'' :=
  ⟨h'.typed, fun g hg => (h'.bodies g hg).trans (h.bodies g hg)⟩

theorem ChangesBelow.mono {ms ms' : List Mention} {s s' : FoldState} (h : ChangesBelow p ms s s')
    (hms : ms ⊆ ms') : ChangesBelow p ms' s s' :=
  ⟨h.typed, fun g hg => h.bodies g fun hcovers => hg (hcovers.mono hms)⟩

theorem ChangesBelow.forget {ms : List Mention} {s s' s'' : FoldState} (h : ChangesBelow p ms s s')
    (hforgets : Forgets s' s'') : ChangesBelow p ms s s'' :=
  h.trans (.unchanged (h.typed.forget hforgets) hforgets.program)

theorem Faithful.part {mode mode' : FoldMode} {depth : Nat} {task part : FoldTask}
    {s s' : FoldState} (h : Faithful p ⟨mode, depth, task, s⟩) (hpart : task.Part part)
    (hmode : mode'.folding = mode.folding) (hs' : s'.Typed p)
    (hbodies : forall g, p.Covers part.mentions g ->
      s'.program.bodyOf g = s.program.bodyOf g) : Faithful p ⟨mode', depth, part, s'⟩ where
  typed := hs'
  stands := by
    rw [hmode]
    exact h.stands.tail hpart
  intact := by
    intro g hg
    rw [hbodies g hg]
    exact h.intact g (hg.mono hpart.sublist.subset)

theorem Faithful.behind {mode mode' : FoldMode} {depth : Nat} {task part : FoldTask}
    {s s' : FoldState} (h : Faithful p ⟨mode, depth, task, s⟩) (hpart : task.Part part)
    (hmode : mode'.folding = mode.folding) (hs' : s'.Typed p)
    (hprogram : s'.program = s.program) : Faithful p ⟨mode', depth, part, s'⟩ :=
  h.part hpart hmode hs' fun _ _ => by rw [hprogram]

theorem Faithful.inner {mode mode' : FoldMode} {depth : Nat} {task part : FoldTask}
    {s : FoldState} (h : Faithful p ⟨mode, depth, task, s⟩) (hpart : task.Part part)
    (hmode : mode'.folding = mode.folding) : Faithful p ⟨mode', depth, part, s⟩ :=
  h.behind hpart hmode h.typed rfl

theorem Faithful.next {mode : FoldMode} {depth : Nat} {st : Stmt} {rest : List Stmt}
    {s s' : FoldState} (hnested : p.WellNested)
    (h : Faithful p ⟨mode, depth, .stmts (st :: rest), s⟩) (hst : ChangesBelow p st.mentions s s') :
    Faithful p ⟨mode, depth, .stmts rest, s'⟩ := by
  apply h.part .rest rfl hst.typed
  intro g hg
  apply hst.bodies
  intro hcovers
  exact h.stands.apart hnested hcovers hg

theorem Faithful.body {mode : FoldMode} {depth : Nat} {pos : Pos} {f : FunId} {s : FoldState}
    (hnested : p.WellNested) (h : Faithful p ⟨mode, depth + 1, .stmt (.funDecl pos f), s⟩) :
    Faithful p ⟨Fold.bodyMode mode.quota mode.folding f, depth, .stmts (s.program.bodyOf f),
      Fold.entered s f⟩ := by
  have hbody := h.intact f (Program.covers_singleton.mpr .refl)
  rw [show s.program.bodyOf f = p.bodyOf f from hbody]
  refine ⟨⟨h.typed.tables.withBody f [], fun _ _ hv => nomatch hv⟩, .refl, ?_⟩
  intro g hg
  have hencloses := hg.encloses
  have hne := Nat.ne_of_gt (hencloses.lt hnested.nested)
  have hintact := h.intact g (Program.covers_singleton.mpr hencloses.to_reflTransGen)
  exact (Fold.bodyOf_withBody_ne s.program hne []).trans hintact

end FoldPoint

end Scriptlet
