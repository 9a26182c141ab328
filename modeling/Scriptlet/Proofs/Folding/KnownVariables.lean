import Scriptlet.Proofs.Evaluation.Shapes
import Scriptlet.Proofs.Evaluation.Unassigned
import Scriptlet.Proofs.Folding.CompileTimeCalls

/-!
# Variables that are known in a run

The pass carries along what it knows of variables.  In a run each of them has its value, as
long as nothing is executed that stores into it; the pass forgets what a tree may assign,
and all globals with it if the tree calls anything.
-/

namespace Scriptlet

/-- All slots are there, and the variables that are known have their values. -/
structure Machine.Knows {σ : Type} (p : Program) (known : Valuation) (m : Machine σ) : Prop where
  shaped : m.Shaped p
  values : forall id v, known.get? id = some v -> id < p.vars.length ∧ m.read p id = some v

def Program.StoresHome (p : Program) : Prop :=
  forall f m id, m ∈ p.mentionsOf f -> m.stored? = some id ->
    (p.variableAt id).owner = none ∨ (p.variableAt id).owner = some f

/-!
# What a tree leaves alone
-/

section Spared

variable {p : Program} {id : VarId}

theorem Program.StoresHome.spares (h : p.StoresHome) (hlocal : (p.variableAt id).owner ≠ none)
    (f : FunId) : p.Spares id f :=
  fun g _ m hm hstored => (h g m id hm hstored).resolve_left hlocal

theorem Program.spares_native {f : FunId} (hnative : (p.function f).isNative = true) :
    p.Spares id f := by
  have hnone : p.mentionsOf f = [] := by
    rw [mentionsOf, bodyOf, Option.isNone_iff_eq_none.mp hnative]
    rfl
  intro g hreaches m hm hstored
  rcases Relation.ReflTransGen.cases_head hreaches with rfl | ⟨c, ⟨m', hm', -⟩, -⟩
  · rw [hnone] at hm
    cases hm
  · rw [hnone] at hm'
    cases hm'

structure Mention.Within (a : Assigned) (m : Mention) : Prop where
  stores : forall id, m.stored? = some id -> id ∈ a.vars
  calls : forall f, m.callee? = some f -> a.globals = true

theorem Mention.Within.left {a : Assigned} {m : Mention} (h : m.Within a) (b : Assigned) :
    m.Within (a.union b) where
  stores := fun id hstored => List.mem_append_left _ (h.stores id hstored)
  calls := fun f hcallee => Bool.or_eq_true_iff.mpr (.inl (h.calls f hcallee))

theorem Mention.Within.right {b : Assigned} {m : Mention} (h : m.Within b) (a : Assigned) :
    m.Within (a.union b) where
  stores := fun id hstored => List.mem_append_right _ (h.stores id hstored)
  calls := fun f hcallee => Bool.or_eq_true_iff.mpr (.inr (h.calls f hcallee))

theorem admitted_union {a b : Assigned} {ms ms' : List Mention}
    (h : Admitted (Mention.Within a) ms) (h' : Admitted (Mention.Within b) ms') :
    Admitted (Mention.Within (a.union b)) (ms ++ ms') :=
  admitted_append.mpr ⟨fun m hm => (h m hm).left b, fun m hm => (h' m hm).right a⟩

theorem admitted_var {m : Mention} {id : VarId} (hstored : m.stored? = some id)
    (hcallee : m.callee? = none) : Admitted (Mention.Within (.var id)) [m] := by
  refine admitted_cons.mpr ⟨⟨?_, ?_⟩, admitted_nil⟩
  · intro other hother
    rw [hstored] at hother
    cases hother
    exact List.mem_singleton.mpr rfl
  · intro f hf
    rw [hcallee] at hf
    cases hf

theorem admitted_globalsIf {m : Mention} {calls : Bool} (hstored : m.stored? = none)
    (hcallee : forall f, m.callee? = some f -> calls = true) :
    Admitted (Mention.Within (.globalsIf calls)) [m] := by
  refine admitted_cons.mpr ⟨⟨?_, hcallee⟩, admitted_nil⟩
  intro id hid
  rw [hstored] at hid
  cases hid

mutual

theorem Expr.within : forall e : Expr, Admitted (Mention.Within (.globalsIf e.hasCall)) e.mentions
  | .literal _ _ => admitted_nil
  | .const _ _ => admitted_globalsIf rfl nofun
  | .var _ _ => admitted_globalsIf rfl nofun
  | .unary _ _ operand => operand.within
  | .binary _ _ left right => admitted_union left.within right.within
  | .call _ _ args => admitted_union (admitted_globalsIf rfl fun _ _ => rfl) (Expr.list_within args)

theorem Expr.list_within : forall args : List Expr,
    Admitted (Mention.Within (.globalsIf true)) (Expr.listMentions args)
  | [] => admitted_nil
  | e :: rest =>
      admitted_append.mpr
        ⟨fun m hm => ⟨(e.within m hm).stores, fun _ _ => rfl⟩, Expr.list_within rest⟩

end

mutual

theorem Stmt.within : forall s : Stmt, Admitted (Mention.Within (Assigned.byStmt s)) s.mentions
  | .constDecl _ _ => admitted_globalsIf rfl nofun
  | .funDecl _ _ => admitted_globalsIf rfl nofun
  | .varDecl _ _ none => admitted_union (admitted_var rfl rfl) admitted_nil
  | .varDecl _ _ (some init) => admitted_union (admitted_var rfl rfl) init.within
  | .assign _ _ value => admitted_union (admitted_var rfl rfl) value.within
  | .block _ body => Stmt.list_within body
  | .ifThen _ cond _ body => admitted_union cond.within (Stmt.list_within body)
  | .whileDo _ cond _ body => admitted_union cond.within (Stmt.list_within body)
  | .ret _ value => value.within
  | .call _ _ args => admitted_union (admitted_globalsIf rfl fun _ _ => rfl) (Expr.list_within args)
  | .async _ target f args => by
      have hstart : Mention.Within (.globalsIf true) (.start target f args.length) :=
        ⟨nofun, fun _ _ => rfl⟩
      have hall := admitted_cons.mpr ⟨hstart, Expr.list_within args⟩
      exact fun m hm => (hall m hm).right (.var target)
  | .await _ _ => admitted_var rfl rfl

theorem Stmt.list_within : forall body : List Stmt,
    Admitted (Mention.Within (Assigned.byStmts body)) (Stmt.listMentions body)
  | [] => admitted_nil
  | s :: rest => admitted_union s.within (Stmt.list_within rest)

end

theorem spared_of_within (hhome : p.StoresHome) {a : Assigned} {ms : List Mention}
    (hfit : p.Fit ms) (hwithin : Admitted (Mention.Within a) ms) (hvars : id ∉ a.vars)
    (hglobals : a.globals = true -> (p.variableAt id).owner ≠ none) :
    Admitted (Mention.Spares p id False) ms := by
  intro m hm
  refine ⟨hfit m hm, fun hstored => hvars ((hwithin m hm).stores id hstored), ?_⟩
  intro f hcallee
  exact hhome.spares (hglobals ((hwithin m hm).calls f hcallee)) f

end Spared

/-!
# What is known behind a tree
-/

section Known

variable {σ α : Type} {p : Program} {known known' : Valuation} {m m' : Machine σ}

theorem knows_empty (h : m.Shaped p) : m.Knows p .empty :=
  ⟨h, fun _ _ hv => nomatch hv⟩

theorem Machine.Knows.holds (h : m.Knows p known) : m.Holds p known :=
  fun id v hv => (h.values id v hv).2

theorem Machine.Knows.forget (h : m.Knows p known)
    (hsub : forall id v, known'.get? id = some v -> known.get? id = some v) : m.Knows p known' :=
  ⟨h.shaped, fun id v hv => h.values id v (hsub id v hv)⟩

theorem Machine.Knows.behind (h : m.Knows p known) {x : Eval σ α} {a : α}
    (hrun : x m = .done a m') (hshape : KeepsAll (Machine.Shaped p) x)
    (hsub : forall id v, known'.get? id = some v -> known.get? id = some v ∧
      (id < p.vars.length -> KeepsAll (fun m => m.read p id = some v) x)) : m'.Knows p known' where
  shaped := (hshape.of_done h.shaped hrun).2
  values := by
    intro id v hv
    rcases hsub id v hv with ⟨hbefore, hkeeps⟩
    rcases h.values id v hbefore with ⟨hid, hread⟩
    exact ⟨hid, ((hkeeps hid).of_done hread hrun).2⟩

theorem Machine.Knows.store? (h : m.Knows p known) (htables : p.Tables) {id : VarId}
    (hid : id < p.vars.length) {v : Value} (hstore : m.store? p id v = some m') :
    m'.Knows p (known.set id v) where
  shaped := h.shaped.store? hstore
  values := by
    intro other w hw
    rw [Valuation.get?_set] at hw
    by_cases hother : other = id
    · rw [if_pos hother] at hw
      cases hw
      exact hother ▸ ⟨hid, h.shaped.read_store? htables hid hstore⟩
    · rw [if_neg hother] at hw
      rcases h.values other w hw with ⟨hlt, hread⟩
      have hsame := Machine.SameAt.store? htables hlt hid (Ne.symm hother) hstore
      exact ⟨hlt, hsame.read.trans hread⟩

section Trees

variable {l : Loaded σ} (hwell : l.program.WellFormed) {fuel : Nat}

include hwell

theorem Machine.Knows.stmt (h : m.Knows l.program known) {s : Stmt} {flow : Flow}
    (hrun : Eval.stmt l.program fuel (l.invoke fuel) s m = .done flow m')
    (hsub : forall id v, known'.get? id = some v -> known.get? id = some v ∧
      Admitted (Mention.Spares l.program id False) s.mentions) : m'.Knows l.program known' := by
  apply h.behind hrun (keeps_stmt (invariant_shaped hwell.tables fuel) fuel s fun _ _ => trivial)
  intro id v hv
  refine ⟨(hsub id v hv).1, ?_⟩
  intro hid
  exact keeps_stmt (invariant_read hwell hid fuel (some v)) fuel s (hsub id v hv).2

theorem Machine.Knows.expr (h : m.Knows l.program known) {e : Expr} {w : Value}
    (hrun : Eval.expr l.program (l.invoke fuel) e m = .done w m')
    (hsub : forall id v, known'.get? id = some v -> known.get? id = some v ∧
      Admitted (Mention.Spares l.program id False) e.mentions) : m'.Knows l.program known' := by
  apply h.behind hrun (keeps_expr (invariant_shaped hwell.tables fuel) e fun _ _ => trivial)
  intro id v hv
  refine ⟨(hsub id v hv).1, ?_⟩
  intro hid
  exact keeps_expr (invariant_read hwell hid fuel (some v)) e (hsub id v hv).2

theorem Machine.Knows.call (h : m.Knows l.program known) {f : FunId} {values : List Value}
    {pos : Pos} {result : Option Value} (hrun : l.invoke fuel f values pos m = .done result m')
    (hsub : forall id v, known'.get? id = some v -> known.get? id = some v ∧
      l.program.Spares id f) : m'.Knows l.program known' := by
  apply h.behind hrun (keepsShaped_invoke hwell.tables fuel f values pos)
  intro id v hv
  refine ⟨(hsub id v hv).1, ?_⟩
  intro hid
  exact keepsRead_invoke hwell hid fuel (hsub id v hv).2 values pos (some v)

end Trees
end Known
end Scriptlet
