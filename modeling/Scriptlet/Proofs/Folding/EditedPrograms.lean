import Scriptlet.Proofs.Binding.Programs
import Scriptlet.Proofs.Folding.Edits

/-!
# Edits of programs

An edited program has the tables of the original one; its statements and the bodies of its
functions are edits of the original ones.  Only calls without effects are dropped, and only
declarations of functions that have nothing left to do.  The original program is coherent,
and so is the edited one: each function that still has something to do is declared where it
was.
-/

namespace Scriptlet

/-!
# Tables
-/

def Function.emptied (f : Function) : Function :=
  { f with body := f.body.map fun block => { block with body := [] } }

@[simp] theorem Function.isNative_emptied (f : Function) : f.emptied.isNative = f.isNative := by
  simp [isNative, emptied]

@[simp] theorem Function.entryPos_emptied (f : Function) : f.emptied.entryPos = f.entryPos := by
  cases hbody : f.body <;> simp [entryPos, emptied, hbody]

namespace Program

structure SameShell (p q : Program) : Prop where
  constants : q.constants = p.constants
  vars : q.vars = p.vars
  globalCount : q.globalCount = p.globalCount
  globals : q.globals = p.globals
  functions : q.functions.map Function.emptied = p.functions.map Function.emptied

theorem SameShell.refl (p : Program) : p.SameShell p :=
  ⟨rfl, rfl, rfl, rfl, rfl⟩

theorem SameShell.symm {p q : Program} (h : p.SameShell q) : q.SameShell p :=
  ⟨h.constants.symm, h.vars.symm, h.globalCount.symm, h.globals.symm, h.functions.symm⟩

theorem SameShell.trans {p q r : Program} (h : p.SameShell q) (h' : q.SameShell r) :
    p.SameShell r where
  constants := h'.constants.trans h.constants
  vars := h'.vars.trans h.vars
  globalCount := h'.globalCount.trans h.globalCount
  globals := h'.globals.trans h.globals
  functions := h'.functions.trans h.functions

section SameShell

variable {p q : Program} (h : p.SameShell q)

include h

theorem SameShell.length : q.functions.length = p.functions.length := by
  simpa using congrArg List.length h.functions

theorem SameShell.function (f : FunId) : (q.function f).emptied = (p.function f).emptied := by
  have hmap : forall r : Program,
      (r.function f).emptied = (r.functions.map Function.emptied).getD f default := by
    intro r
    rw [Program.function, List.getD_eq_getElem?_getD, List.getD_eq_getElem?_getD,
      List.getElem?_map]
    cases r.functions[f]? <;> rfl
  rw [hmap, hmap, h.functions]

theorem SameShell.name (f : FunId) : (q.function f).name = (p.function f).name :=
  (congrArg Function.name (h.function f) :)

theorem SameShell.params (f : FunId) : (q.function f).params = (p.function f).params :=
  (congrArg Function.params (h.function f) :)

theorem SameShell.result (f : FunId) : (q.function f).result = (p.function f).result :=
  (congrArg Function.result (h.function f) :)

theorem SameShell.isNative (f : FunId) : (q.function f).isNative = (p.function f).isNative := by
  rw [← Function.isNative_emptied, h.function, Function.isNative_emptied]

theorem SameShell.entryPos (f : FunId) : (q.function f).entryPos = (p.function f).entryPos := by
  rw [← Function.entryPos_emptied, h.function, Function.entryPos_emptied]

theorem SameShell.variableAt (id : VarId) : q.variableAt id = p.variableAt id := by
  rw [Program.variableAt, h.vars, ← Program.variableAt]

theorem SameShell.slotCount (owner : Option FunId) : q.slotCount owner = p.slotCount owner := by
  cases owner with
  | none => exact h.globalCount
  | some f => exact (congrArg Function.localCount (h.function f) :)

theorem SameShell.tables (hp : p.Tables) : q.Tables where
  slots := by
    intro owner
    rw [slotsOf, h.vars, h.slotCount]
    exact hp.slots owner
  owned := by
    rw [h.vars, h.length]
    exact hp.owned
  params := by
    intro f i param hparam
    rw [h.params] at hparam
    rw [h.vars, h.variableAt]
    exact hp.params f i param hparam
  constants := by
    rw [h.constants]
    exact hp.constants
  defaults := by
    rw [h.vars]
    exact hp.defaults

theorem SameShell.hasVar {owners : List FunId} {id : VarId} (hid : p.HasVar owners id) :
    q.HasVar owners id := by
  rw [HasVar, h.vars, h.variableAt]
  exact hid

theorem SameShell.hasFunction {f : FunId} {arity : Nat} (hf : p.HasFunction f arity) :
    q.HasFunction f arity := by
  rw [HasFunction, h.length, h.params]
  exact hf

theorem SameShell.fits {owners : List FunId} {m : Mention} (hm : m.Fits p owners) :
    m.Fits q owners := by
  cases m with
  | const id => exact Nat.lt_of_lt_of_eq hm (congrArg List.length h.constants).symm
  | declareConst id => exact Nat.lt_of_lt_of_eq hm (congrArg List.length h.constants).symm
  | read id => exact h.hasVar hm
  | declareVar id =>
      rw [Mention.Fits, h.vars, h.variableAt]
      exact hm
  | assign id => exact h.hasVar hm
  | await id => exact h.hasVar hm
  | declareFunction f => exact Nat.lt_of_lt_of_eq hm h.length.symm
  | call f arity => exact h.hasFunction hm
  | start target f arity =>
      rcases hm with ⟨htarget, hf, hresult⟩
      refine ⟨h.hasVar htarget, h.hasFunction hf, ?_⟩
      rw [h.result, h.variableAt]
      exact hresult

theorem SameShell.hasGlobal {g : Global} (hg : p.hasGlobal g) : q.hasGlobal g := by
  cases g with
  | const id => exact Nat.lt_of_lt_of_eq hg (congrArg List.length h.constants).symm
  | var id =>
      rw [Program.hasGlobal, h.vars, h.variableAt]
      exact hg
  | function f => exact Nat.lt_of_lt_of_eq hg h.length.symm

theorem SameShell.globalName (g : Global) : q.globalName g = p.globalName g := by
  cases g with
  | const id => rw [Program.globalName, Program.constant, h.constants]; rfl
  | var id => rw [Program.globalName, h.variableAt]; rfl
  | function f => exact h.name f

end SameShell

/-!
# Edited programs
-/

/-- What may be dropped from the statements of the program: calls without side effects, and
declarations of functions whose bodies are empty. -/
def drops (p : Program) : Drops where
  call f := p.hasSideEffects f = false
  declaration f := (p.function f).isNative = false ∧ p.bodyOf f = []

/-- The second program is the first one after some edits. -/
structure EditedTo (p q : Program) : Prop extends p.SameShell q where
  root : Stmt.ListEdited q.drops p.root q.root
  bodies : forall f, Stmt.ListEdited q.drops (p.bodyOf f) (q.bodyOf f)

/-!
# Coherence
-/

/-- The tables of the program agree with each other and with its statements: what is named
is in the tables and may be named at its place, functions nest, and each function that has
anything to do is declared.  What the outermost level declares is listed. -/
structure Coherent (p : Program) : Prop where
  tables : p.Tables
  root : p.AllFit [] (Stmt.listMentions p.root)
  exact : forall f, (p.function f).isNative = false -> p.ParamsExact f
  bodies : forall f, p.bodyOf f = [] ∨ exists outer,
    p.Enclosed (Stmt.listMentions p.root) (f :: outer) ∧ p.AllFit (f :: outer) (p.mentionsOf f)
  nested : p.WellNested
  globals : forall g, g ∈ p.globals -> p.hasGlobal g
  names : (p.globals.map p.globalName).Nodup
  listed : forall s g, s ∈ p.root -> s.global? = some g -> g ∈ p.globals

theorem bodyOf_of_native {p : Program} {f : FunId} (h : (p.function f).isNative = true) :
    p.bodyOf f = [] := by
  rw [bodyOf, Option.isNone_iff_eq_none.mp h]

theorem isNative_of_length_le {p : Program} {f : FunId} (h : p.functions.length ≤ f) :
    (p.function f).isNative = true := by
  rw [function, List.getD_eq_getElem?_getD, List.getElem?_eq_none h]
  rfl

theorem mem_listGlobals {g : Global} (root : List Stmt) : forall {listed : List Global},
    (g ∈ listed ∨ exists s, s ∈ root ∧ s.global? = some g) -> g ∈ listGlobals listed root := by
  induction root with
  | nil =>
      rintro listed (hg | ⟨s, hs, -⟩)
      · exact hg
      · cases hs
  | cons s rest ih =>
      intro listed hg
      apply ih
      rcases hg with hg | ⟨s', hs', hg⟩
      · exact .inl (List.mem_append_left _ hg)
      · rcases List.mem_cons.mp hs' with rfl | hrest
        · refine .inl ?_
          by_cases hlisted : g ∈ listed
          · exact List.mem_append_left _ hlisted
          · apply List.mem_append_right
            simp [hg, hlisted]
        · exact .inr ⟨s', hrest, hg⟩

theorem WellFormed.coherent {body : Type} {externs : List (Extern body)} {p : Program}
    (h : p.WellFormed) (hnested : p.WellNested) (hlists : p.ListsGlobals externs) :
    p.Coherent where
  tables := h.tables
  root := h.root
  exact := by
    intro f hf
    by_cases hlt : f < p.functions.length
    · rcases h.bodies f hlt with hnative | ⟨hexact, -⟩
      · rw [hf] at hnative
        cases hnative
      · exact hexact
    · rw [isNative_of_length_le (Nat.le_of_not_lt hlt)] at hf
      cases hf
  bodies := by
    intro f
    by_cases hlt : f < p.functions.length
    · rcases h.bodies f hlt with hnative | ⟨-, outer, henclosed, hfit⟩
      · exact .inl (bodyOf_of_native hnative)
      · refine .inr ⟨outer, henclosed, ?_⟩
        rw [List.append_nil] at hfit
        exact hfit
    · exact .inl (bodyOf_of_native (isNative_of_length_le (Nat.le_of_not_lt hlt)))
  nested := hnested
  globals := h.globals
  names := h.names
  listed := by
    intro s g hs hg
    rcases hlists with ⟨given, -, hlists⟩
    rw [hlists]
    exact mem_listGlobals p.root (.inr ⟨s, hs, hg⟩)

theorem coherent_of_parse {body : Type} {externs : List (Extern body)} {tokens : List Token}
    {parsed : Parsed} (h : parse externs tokens = .ok parsed) : parsed.program.Coherent := by
  have hends : Ends _ (fun parsed => parsed.program.Coherent) (parse externs tokens) :=
    ends_parse externs tokens Coherent fun _ _ _ _ hexterns hroot =>
      (wellFormed_of_reads hexterns hroot).coherent (wellNested_of_reads hroot)
        (listsGlobals_of_reads hexterns hroot)
  rw [h] at hends
  exact hends

/-!
# Edited programs are coherent
-/

section Coherent

variable {p q : Program} (h : p.EditedTo q)

include h

omit h in
theorem not_dropped {f : FunId} (hf : q.bodyOf f ≠ []) : ¬q.drops.declaration f :=
  fun hdropped => hf hdropped.2

theorem EditedTo.mentions_sublist (f : FunId) : (q.mentionsOf f).Sublist (p.mentionsOf f) :=
  (h.bodies f).mentions_sublist

theorem EditedTo.nests {c f : FunId} (hnests : q.Nests c f) : p.Nests c f :=
  (h.mentions_sublist c).subset hnests

/-- A function that has something to do is declared where it was. -/
theorem EditedTo.nests_kept {c f : FunId} (hnests : p.Nests c f) (hf : q.bodyOf f ≠ []) :
    q.Nests c f :=
  (h.bodies c).declares (not_dropped hf) hnests

omit h in
theorem Nests.bodyOf_ne_nil {c f : FunId} (hnests : q.Nests c f) : q.bodyOf c ≠ [] := by
  intro hempty
  rw [Nests, mentionsOf, hempty] at hnests
  cases hnests

theorem EditedTo.surrounds {c f : FunId} (hsurrounds : p.Surrounds c f) (hf : q.bodyOf f ≠ []) :
    q.Surrounds c f := by
  induction hsurrounds with
  | refl => exact .refl
  | tail _ hnests ih =>
      have hkept := h.nests_kept hnests hf
      exact .tail (ih hkept.bodyOf_ne_nil) hkept

theorem EditedTo.enclosed {f : FunId} {outer : List FunId}
    (henclosed : p.Enclosed (Stmt.listMentions p.root) (f :: outer)) (hf : q.bodyOf f ≠ []) :
    q.Enclosed (Stmt.listMentions q.root) (f :: outer) := by
  generalize hwhole : f :: outer = whole at henclosed
  induction henclosed generalizing f outer with
  | outer hdeclared =>
      cases hwhole
      exact .outer (h.root.declares (not_dropped hf) hdeclared)
  | inner hnests _ ih =>
      cases hwhole
      have hkept := h.nests_kept hnests hf
      exact .inner hkept (ih hkept.bodyOf_ne_nil rfl)

theorem EditedTo.outermost {f : FunId} (hf : p.Outermost f) : q.Outermost f where
  lt := Nat.lt_of_lt_of_eq hf.lt h.length.symm
  free := fun c hnests => hf.free c (h.nests hnests)

theorem EditedTo.wellNested (hp : p.WellNested) : q.WellNested where
  nested :=
    { later := by
        intro c f hnests
        rw [h.length]
        exact hp.nested.later (h.nests hnests)
      once := fun c =>
        (hp.nested.once c).sublist ((h.mentions_sublist c).filterMap Mention.function?)
      parent := fun hc hc' => hp.nested.parent (h.nests hc) (h.nests hc')
      known := by
        intro m b f hm hcallee
        rw [h.length]
        exact hp.nested.known ((h.mentions_sublist b).subset hm) hcallee
      visible := by
        intro m b f c hm hcallee hnests
        have hsurrounds :=
          hp.nested.visible ((h.mentions_sublist b).subset hm) hcallee (h.nests hnests)
        apply h.surrounds hsurrounds
        intro hempty
        rw [mentionsOf, hempty] at hm
        cases hm }
  once := hp.once.sublist (h.root.mentions_sublist.filterMap Mention.function?)
  declared := fun hf => h.outermost (hp.declared (h.root.mentions_sublist.subset hf))
  calls := fun hm hcallee => h.outermost (hp.calls (h.root.mentions_sublist.subset hm) hcallee)
  globals := by
    intro f hf
    rw [h.globals] at hf
    exact h.outermost (hp.globals hf)

omit h in
theorem listed_of_edited {d : Drops} {root root' : List Stmt} (h : Stmt.ListEdited d root root')
    {s : Stmt} {g : Global} (hs : s ∈ root') (hg : s.global? = some g) :
    exists s₀, s₀ ∈ root ∧ s₀.global? = some g := by
  induction root generalizing root' with
  | nil =>
      cases h
      cases hs
  | cons first rest ih =>
      have hbehind : forall {rest'}, Stmt.ListEdited d rest rest' -> s ∈ rest' ->
          exists s₀, s₀ ∈ first :: rest ∧ s₀.global? = some g := by
        intro rest' hrest hs
        rcases ih hrest hs with ⟨s₀, hs₀, hglobal⟩
        exact ⟨s₀, List.mem_cons_of_mem _ hs₀, hglobal⟩
      cases h with
      | keep hfirst hrest =>
          rcases List.mem_cons.mp hs with rfl | hs
          · exact ⟨first, List.mem_cons_self, hfirst.global?.symm.trans hg⟩
          · exact hbehind hrest hs
      | dropCall _ hrest => exact hbehind hrest hs
      | dropBlock _ hrest => exact hbehind hrest hs
      | dropDeclaration _ hrest => exact hbehind hrest hs

theorem EditedTo.coherent (hp : p.Coherent) : q.Coherent where
  tables := h.tables hp.tables
  root := fun m hm => h.fits (hp.root m (h.root.mentions_sublist.subset hm))
  exact := by
    intro f hf
    rw [ParamsExact, h.params]
    exact hp.exact f ((h.isNative f).symm.trans hf)
  bodies := by
    intro f
    by_cases hempty : q.bodyOf f = []
    · exact .inl hempty
    · rcases hp.bodies f with hnone | ⟨outer, henclosed, hfit⟩
      · have hedited := h.bodies f
        rw [hnone] at hedited
        exact absurd hedited.of_nil hempty
      · exact .inr ⟨outer, h.enclosed henclosed hempty,
          fun m hm => h.fits (hfit m ((h.mentions_sublist f).subset hm))⟩
  nested := h.wellNested hp.nested
  globals := by
    intro g hg
    rw [h.globals] at hg
    exact h.hasGlobal (hp.globals g hg)
  names := by
    rw [h.globals, List.map_congr_left fun g _ => h.globalName g]
    exact hp.names
  listed := by
    intro s g hs hg
    rcases listed_of_edited h.root hs hg with ⟨s₀, hs₀, hglobal⟩
    rw [h.globals]
    exact hp.listed s₀ g hs₀ hglobal

end Coherent

/-!
# What coherence leaves out

A coherent program is well formed but for two clauses.  A function that has nothing to do
need not be declared anywhere, and the list of the globals may hold more than the outermost
level declares.  An edit keeps everything else.
-/

section Clauses

variable {body : Type} {externs : List (Extern body)} {p q : Program}

theorem Coherent.wellFormed_iff (hp : p.Coherent) :
    p.WellFormed <-> forall f, (p.function f).isNative = false -> p.bodyOf f = [] ->
      exists outer, p.Enclosed (Stmt.listMentions p.root) (f :: outer) := by
  constructor
  · intro h f hf _
    have hlt : f < p.functions.length := by
      by_contra hge
      rw [isNative_of_length_le (Nat.le_of_not_lt hge)] at hf
      cases hf
    rcases h.bodies f hlt with hnative | ⟨-, outer, henclosed, -⟩
    · rw [hf] at hnative
      cases hnative
    · exact ⟨outer, henclosed⟩
  · intro hdeclared
    refine ⟨hp.tables, hp.root, ?_, hp.globals, hp.names⟩
    intro f _
    cases hf : (p.function f).isNative with
    | true => exact .inl hf
    | false =>
        refine .inr ⟨hp.exact f hf, ?_⟩
        by_cases hempty : p.bodyOf f = []
        · rcases hdeclared f hf hempty with ⟨outer, henclosed⟩
          refine ⟨outer, henclosed, ?_⟩
          rw [mentionsOf, hempty]
          exact admitted_nil
        · rcases hp.bodies f with hnone | ⟨outer, henclosed, hfit⟩
          · exact absurd hnone hempty
          · exact ⟨outer, henclosed, by rwa [List.append_nil]⟩

theorem SameShell.provides (h : p.SameShell q) {g : Global} {entry : Extern body}
    (hg : p.Provides g entry) : q.Provides g entry := by
  cases g with
  | const id =>
      cases entry with
      | const name type value =>
          rw [Provides, constant, h.constants]
          exact hg
      | var name type default => exact hg
      | function name params result body => exact hg
  | var id =>
      cases entry with
      | var name type default =>
          rw [Provides, h.variableAt]
          exact hg
      | const name type value => exact hg
      | function name params result body => exact hg
  | function f =>
      cases entry with
      | function name params result body =>
          rw [Provides, Function.IsGiven, h.name, h.result, h.isNative, h.params]
          exact hg
      | const name type value => exact hg
      | var name type default => exact hg

theorem EditedTo.globals_eq (h : p.EditedTo q) (hlists : p.ListsGlobals externs) :
    exists given, List.Forall₂ q.Provides given externs ∧ q.globals = listGlobals given p.root := by
  rcases hlists with ⟨given, hgiven, hlists⟩
  exact ⟨given, hgiven.imp fun _ _ => h.provides, h.globals.trans hlists⟩

def idleProgram (root : List Stmt) : Program where
  root := root
  constants := []
  vars := []
  functions := [{
    name := "idle", params := [], result := .none, localCount := 0
    body := some { head := { scope := 1, pos := .endOfInput }, body := [] } }]
  globalCount := 0
  globals := [.function 0]

theorem bodyOf_idleProgram (root : List Stmt) (f : FunId) : (idleProgram root).bodyOf f = [] := by
  cases f <;> rfl

theorem wellFormed_idleProgram (pos : Pos) : (idleProgram [.funDecl pos 0]).WellFormed where
  tables :=
    { slots := by
        intro owner
        rcases owner with _ | _ | f <;> rfl
      owned := by
        intro _ hv
        cases hv
      params := by
        intro f i param hparam
        cases f <;> cases hparam
      constants := by
        intro _ hc
        cases hc
      defaults := by
        intro _ hv
        cases hv }
  root := by
    intro m hm
    cases List.mem_singleton.mp hm
    exact Nat.zero_lt_one
  bodies := by
    intro f hf
    obtain rfl := Nat.lt_one_iff.mp hf
    refine .inr ⟨?_, [], .outer List.mem_cons_self, admitted_nil⟩
    intro param hparam
    cases hparam
  globals := by
    intro g hg
    cases List.mem_singleton.mp hg
    exact Nat.zero_lt_one
  names := List.nodup_singleton _

/-- An edit that drops the declaration of a function loses both clauses. -/
theorem exists_edit_not_wellFormed : exists p q : Program, p.WellFormed ∧
    p.ListsGlobals ([] : List (Extern Unit)) ∧ p.EditedTo q ∧
    ¬q.WellFormed ∧ ¬q.ListsGlobals ([] : List (Extern Unit)) := by
  refine ⟨idleProgram [.funDecl .endOfInput 0], idleProgram [], wellFormed_idleProgram _,
    ⟨[], .nil, rfl⟩, ?_, ?_, ?_⟩
  · refine ⟨⟨rfl, rfl, rfl, rfl, rfl⟩, .dropDeclaration ⟨rfl, rfl⟩ .nil, fun f => ?_⟩
    rw [bodyOf_idleProgram, bodyOf_idleProgram]
    exact .nil
  · intro h
    rcases h.bodies 0 Nat.zero_lt_one with hnative | ⟨-, outer, henclosed, -⟩
    · cases hnative
    · cases henclosed with
      | outer hdeclared => cases hdeclared
      | @inner f _ outer hnests _ =>
          rw [mentionsOf, bodyOf_idleProgram] at hnests
          cases hnests
  · rintro ⟨given, hgiven, hglobals⟩
    cases hgiven
    cases hglobals

end Clauses
end Program
end Scriptlet
