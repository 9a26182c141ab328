import Scriptlet.Proofs.Program.Calls
import Scriptlet.Proofs.Program.WellFormed

/-!
# Nesting of functions

A function is declared in the body of one other function at most, behind it in the table,
so the functions of a program form a forest.  A body calls those functions only that are
declared in the body itself, in a body around it, or in none.
-/

namespace Scriptlet

def Mention.function? : Mention -> Option FunId
  | .declareFunction f => some f
  | _ => none

def declaredFunctions (ms : List Mention) : List FunId :=
  ms.filterMap Mention.function?

theorem Mention.function?_eq_some {m : Mention} {f : FunId} :
    m.function? = some f <-> m = .declareFunction f := by
  cases m <;> simp [Mention.function?]

@[simp] theorem mem_declaredFunctions {ms : List Mention} {f : FunId} :
    f ∈ declaredFunctions ms <-> .declareFunction f ∈ ms := by
  simp [declaredFunctions, Mention.function?_eq_some]

@[simp] theorem declaredFunctions_append (ms ms' : List Mention) :
    declaredFunctions (ms ++ ms') = declaredFunctions ms ++ declaredFunctions ms' := by
  simp [declaredFunctions]

namespace Program

def Nests (p : Program) (c f : FunId) : Prop :=
  .declareFunction f ∈ p.mentionsOf c

abbrev Surrounds (p : Program) : FunId -> FunId -> Prop :=
  Relation.ReflTransGen p.Nests

/-- The function is in the table, and no body declares it. -/
structure Outermost (p : Program) (f : FunId) : Prop where
  lt : f < p.functions.length
  free : forall c, ¬p.Nests c f

/-- The bodies of the program nest, also while some of them are not read yet. -/
structure Nested (p : Program) : Prop where
  later : forall {c f}, p.Nests c f -> c < f ∧ f < p.functions.length
  once : forall c, (declaredFunctions (p.mentionsOf c)).Nodup
  parent : forall {c c' f}, p.Nests c f -> p.Nests c' f -> c = c'
  known : forall {m h f}, m ∈ p.mentionsOf h -> m.callee? = some f -> f < p.functions.length
  visible : forall {m h f c}, m ∈ p.mentionsOf h -> m.callee? = some f -> p.Nests c f ->
    p.Surrounds c h

/-- A whole program whose functions nest.  At the outermost level only outermost functions
are declared, called and listed. -/
structure WellNested (p : Program) : Prop where
  nested : p.Nested
  once : (declaredFunctions (Stmt.listMentions p.root)).Nodup
  declared : forall {f}, .declareFunction f ∈ Stmt.listMentions p.root -> p.Outermost f
  calls : forall {m f}, m ∈ Stmt.listMentions p.root -> m.callee? = some f -> p.Outermost f
  globals : forall {f}, .function f ∈ p.globals -> p.Outermost f

/-!
# Programs with the same bodies
-/

theorem Surrounds.mono {q p : Program} {c f : FunId}
    (hnests : forall c f, q.Nests c f -> p.Nests c f) (h : q.Surrounds c f) : p.Surrounds c f :=
  Relation.ReflTransGen.mono hnests c f h

section Same

variable {q p : Program} (hlength : q.functions.length ≤ p.functions.length)
  (hsame : forall c, p.mentionsOf c = q.mentionsOf c)

include hsame

theorem nests_iff_of_same (c f : FunId) : p.Nests c f <-> q.Nests c f := by
  rw [Nests, Nests, hsame]

include hlength

theorem Outermost.of_same {f : FunId} (h : q.Outermost f) : p.Outermost f where
  lt := Nat.lt_of_lt_of_le h.lt hlength
  free := fun c hc => h.free c ((nests_iff_of_same hsame c f).mp hc)

theorem Nested.of_same (h : q.Nested) : p.Nested where
  later := by
    intro c f hnests
    have hlater := h.later ((nests_iff_of_same hsame c f).mp hnests)
    exact ⟨hlater.1, Nat.lt_of_lt_of_le hlater.2 hlength⟩
  once := by
    intro c
    rw [hsame]
    exact h.once c
  parent := fun hc hc' =>
    h.parent ((nests_iff_of_same hsame _ _).mp hc) ((nests_iff_of_same hsame _ _).mp hc')
  known := by
    intro m b f hm hcallee
    rw [hsame] at hm
    exact Nat.lt_of_lt_of_le (h.known hm hcallee) hlength
  visible := by
    intro m b f c hm hcallee hnests
    rw [hsame] at hm
    exact Surrounds.mono (fun c f => (nests_iff_of_same hsame c f).mpr)
      (h.visible hm hcallee ((nests_iff_of_same hsame c f).mp hnests))

end Same

theorem mentionsOf_eq_nil {p : Program} {f : FunId} (hf : p.functions.length ≤ f) :
    p.mentionsOf f = [] := by
  apply List.eq_nil_iff_forall_not_mem.mpr
  intro m hm
  exact absurd (lt_of_mem_mentionsOf hm) (Nat.not_lt.mpr hf)

theorem nested_of_no_bodies {p : Program} (h : forall c, p.mentionsOf c = []) : p.Nested where
  later := fun hnests => by
    rw [Nests, h] at hnests
    cases hnests
  once := by
    intro c
    rw [h]
    exact .nil
  parent := fun hnests _ => by
    rw [Nests, h] at hnests
    cases hnests
  known := fun hm _ => by
    rw [h] at hm
    cases hm
  visible := fun hm _ _ => by
    rw [h] at hm
    cases hm

/-!
# Nesting while programs grow
-/

structure Extends (q p : Program) : Prop where
  functions : q.functions.length ≤ p.functions.length
  bodies : forall c, c < q.functions.length -> p.mentionsOf c = q.mentionsOf c

theorem Grows.extends {q p : Program} (h : q.Grows p) : q.Extends p where
  functions := h.functions
  bodies := fun _ hc => h.mentionsOf hc

theorem Extends.trans {p q r : Program} (hpq : p.Extends q) (hqr : q.Extends r) : p.Extends r where
  functions := Nat.le_trans hpq.functions hqr.functions
  bodies := by
    intro c hc
    rw [hqr.bodies c (Nat.lt_of_lt_of_le hc hpq.functions), hpq.bodies c hc]

theorem Extends.same {q p : Program} (h : q.Extends p)
    (hnew : forall c, q.functions.length ≤ c -> p.mentionsOf c = []) (c : FunId) :
    p.mentionsOf c = q.mentionsOf c := by
  by_cases hc : c < q.functions.length
  · exact h.bodies c hc
  · have hle := Nat.le_of_not_lt hc
    rw [hnew c hle, mentionsOf_eq_nil hle]

theorem Outermost.grow {q p : Program} {f : FunId} (h : q.Outermost f) (hextends : q.Extends p)
    (hp : p.Nested) : p.Outermost f where
  lt := Nat.lt_of_lt_of_le h.lt hextends.functions
  free := by
    intro c hc
    by_cases hold : c < q.functions.length
    · rw [Nests, hextends.bodies c hold] at hc
      exact h.free c hc
    · have hlater := (hp.later hc).1
      exact hold (Nat.lt_trans hlater h.lt)

theorem Grows.nested {q p : Program} (h : q.Grows p)
    (hlength : p.functions.length = q.functions.length) (hq : q.Nested) : p.Nested :=
  hq.of_same h.functions (h.extends.same fun _ hc => mentionsOf_eq_nil (hlength ▸ hc))

structure Nesting (q : Program) (ms : List Mention) (p : Program) : Prop where
  nested : p.Nested
  kept : q.Extends p
  declared : forall {f}, .declareFunction f ∈ ms -> q.functions.length ≤ f ∧ p.Outermost f
  once : (declaredFunctions ms).Nodup
  calls : forall {m f}, m ∈ ms -> m.callee? = some f -> p.Outermost f

namespace Nesting

variable {q p r : Program} {ms ms' : List Mention}

theorem plain (hkept : q.Extends p) (hp : p.Nested)
    (hms : Admitted (fun m => m.function? = none ∧
      forall f, m.callee? = some f -> p.Outermost f) ms) : Nesting q ms p := by
  have hnone : forall f, .declareFunction f ∉ ms := fun f hf => nomatch (hms _ hf).1
  refine ⟨hp, hkept, fun hf => absurd hf (hnone _), ?_, fun hm => (hms _ hm).2 _⟩
  have hempty : declaredFunctions ms = [] := by
    apply List.eq_nil_iff_forall_not_mem.mpr
    intro f hf
    exact hnone f (mem_declaredFunctions.mp hf)
  rw [hempty]
  exact .nil

theorem after (hkept : q.Extends p) (h : Nesting p ms r) : Nesting q ms r where
  nested := h.nested
  kept := hkept.trans h.kept
  declared := fun hf => ⟨Nat.le_trans hkept.functions (h.declared hf).1, (h.declared hf).2⟩
  once := h.once
  calls := h.calls

theorem append (h : Nesting q ms p) (h' : Nesting p ms' r) : Nesting q (ms ++ ms') r where
  nested := h'.nested
  kept := h.kept.trans h'.kept
  declared := by
    intro f hf
    rcases List.mem_append.mp hf with hf | hf
    · exact ⟨(h.declared hf).1, (h.declared hf).2.grow h'.kept h'.nested⟩
    · exact ⟨Nat.le_trans h.kept.functions (h'.declared hf).1, (h'.declared hf).2⟩
  once := by
    rw [declaredFunctions_append, List.nodup_append]
    refine ⟨h.once, h'.once, ?_⟩
    intro f hf f' hf'
    have hold := (h.declared (mem_declaredFunctions.mp hf)).2.lt
    have hnew := (h'.declared (mem_declaredFunctions.mp hf')).1
    exact Nat.ne_of_lt (Nat.lt_of_lt_of_le hold hnew)
  calls := by
    intro m f hm hcallee
    rcases List.mem_append.mp hm with hm | hm
    · exact (h.calls hm hcallee).grow h'.kept h'.nested
    · exact h'.calls hm hcallee

end Nesting

/-!
# A function that gets its body
-/

section SetBody

variable {p : Program} {f : FunId} (hf : f < p.functions.length) (body : Block)
  (hpending : p.mentionsOf f = [])

include hf

theorem nests_setBody_self (g : FunId) :
    (p.setBody f body).Nests f g <-> .declareFunction g ∈ Stmt.listMentions body.body := by
  rw [Nests, mentionsOf_setBody_self hf]

theorem nests_setBody_ne {c : FunId} (hc : c ≠ f) (g : FunId) :
    (p.setBody f body).Nests c g <-> p.Nests c g := by
  rw [Nests, Nests, mentionsOf_setBody_ne hf body hc]

include hpending

theorem Nests.setBody {c g : FunId} (h : p.Nests c g) : (p.setBody f body).Nests c g := by
  have hc : c ≠ f := by
    intro heq
    rw [heq, Nests, hpending] at h
    cases h
  exact (nests_setBody_ne hf body hc g).mpr h

theorem Enclosed.surrounds {chain : List FunId} {g : FunId}
    (h : p.Enclosed (Stmt.listMentions body.body) (g :: chain)) :
    (p.setBody f body).Surrounds f g := by
  generalize hwhole : g :: chain = whole at h
  induction h generalizing g chain with
  | outer hg =>
      cases hwhole
      exact .single ((nests_setBody_self hf body _).mpr hg)
  | inner hg _ ih =>
      cases hwhole
      exact .tail (ih rfl) (Nests.setBody hf body hpending hg)

theorem Nested.setBody {q : Program} (h : Nesting q (Stmt.listMentions body.body) p)
    (hq : q.Nested) (hlength : q.functions.length = f + 1)
    (hbodies : forall g, f < g -> g < p.functions.length ->
      p.mentionsOf g = [] ∨ exists chain, p.Enclosed (Stmt.listMentions body.body) (g :: chain)) :
    (p.setBody f body).Nested where
  later := by
    intro c g hnests
    have hcount : (p.setBody f body).functions.length = p.functions.length :=
      p.entries_setBody f body .function
    rw [hcount]
    by_cases hc : c = f
    · subst hc
      rcases h.declared ((nests_setBody_self hf body g).mp hnests) with ⟨hnew, houtermost⟩
      rw [hlength] at hnew
      exact ⟨hnew, houtermost.lt⟩
    · exact h.nested.later ((nests_setBody_ne hf body hc g).mp hnests)
  once := by
    intro c
    by_cases hc : c = f
    · rw [hc, mentionsOf_setBody_self hf]
      exact h.once
    · rw [mentionsOf_setBody_ne hf body hc]
      exact h.nested.once c
  parent := by
    intro c c' g hc hc'
    by_cases hcf : c = f
    · by_cases hcf' : c' = f
      · rw [hcf, hcf']
      · subst hcf
        have houtermost := (h.declared ((nests_setBody_self hf body g).mp hc)).2
        exact absurd ((nests_setBody_ne hf body hcf' g).mp hc') (houtermost.free c')
    · have hold := (nests_setBody_ne hf body hcf g).mp hc
      by_cases hcf' : c' = f
      · subst hcf'
        have houtermost := (h.declared ((nests_setBody_self hf body g).mp hc')).2
        exact absurd hold (houtermost.free c)
      · exact h.nested.parent hold ((nests_setBody_ne hf body hcf' g).mp hc')
  known := by
    intro m b g hm hcallee
    have hcount : (p.setBody f body).functions.length = p.functions.length :=
      p.entries_setBody f body .function
    rw [hcount]
    by_cases hb : b = f
    · rw [hb, mentionsOf_setBody_self hf] at hm
      exact (h.calls hm hcallee).lt
    · rw [mentionsOf_setBody_ne hf body hb] at hm
      exact h.nested.known hm hcallee
  visible := by
    intro m b g c hm hcallee hnests
    by_cases hb : b = f
    · subst hb
      rw [mentionsOf_setBody_self hf] at hm
      by_cases hc : c = b
      · rw [hc]
      · exact absurd ((nests_setBody_ne hf body hc g).mp hnests) ((h.calls hm hcallee).free c)
    · rw [mentionsOf_setBody_ne hf body hb] at hm
      by_cases hc : c = f
      · subst hc
        have hnew := (h.declared ((nests_setBody_self hf body g).mp hnests)).1
        by_cases hold : b < q.functions.length
        · rw [h.kept.bodies b hold] at hm
          exact absurd (hq.known hm hcallee) (Nat.not_lt.mpr hnew)
        · rw [hlength] at hold
          have hbehind := Nat.le_of_not_lt hold
          rcases hbodies b hbehind (lt_of_mem_mentionsOf hm) with hnone | ⟨chain, hchain⟩
          · rw [hnone] at hm
            cases hm
          · exact hchain.surrounds hf body hpending
      · have hold := h.nested.visible hm hcallee ((nests_setBody_ne hf body hc g).mp hnests)
        exact hold.mono fun _ _ => Nests.setBody hf body hpending

theorem outermost_setBody_self {q : Program} (h : Nesting q (Stmt.listMentions body.body) p)
    (hq : q.Outermost f) : (p.setBody f body).Outermost f where
  lt := Nat.lt_of_lt_of_eq hf (p.entries_setBody f body .function).symm
  free := by
    intro c hnests
    by_cases hc : c = f
    · subst hc
      have hnew := (h.declared ((nests_setBody_self hf body c).mp hnests)).1
      exact absurd hq.lt (Nat.not_lt.mpr hnew)
    · have houtermost := hq.grow h.kept h.nested
      exact houtermost.free c ((nests_setBody_ne hf body hc f).mp hnests)

theorem Nesting.setBody {older q : Program} (h : Nesting q (Stmt.listMentions body.body) p)
    (hq : q.Nested) (houtermost : q.Outermost f) (hlength : q.functions.length = f + 1)
    (hbodies : forall g, f < g -> g < p.functions.length ->
      p.mentionsOf g = [] ∨ exists chain, p.Enclosed (Stmt.listMentions body.body) (g :: chain))
    (hkept : older.Extends (p.setBody f body)) (hold : older.functions.length ≤ f) :
    Nesting older [.declareFunction f] (p.setBody f body) where
  nested := Nested.setBody hf body hpending h hq hlength hbodies
  kept := hkept
  declared := by
    intro g hg
    cases List.mem_singleton.mp hg
    exact ⟨hold, outermost_setBody_self hf body hpending h houtermost⟩
  once := by simp [declaredFunctions, Mention.function?]
  calls := by
    intro m g hm hcallee
    cases List.mem_singleton.mp hm
    cases hcallee

end SetBody

theorem BodyFits.enclosed {p : Program} {around : List Mention} {outermost : List FunId} {f : FunId}
    (h : p.BodyFits around outermost f) :
    p.mentionsOf f = [] ∨ exists chain, p.Enclosed around (f :: chain) := by
  rcases h with hnative | ⟨-, outer, henclosed, -⟩
  · have hnone := Option.isNone_iff_eq_none.mp hnative
    refine .inl ?_
    rw [mentionsOf, bodyOf, hnone]
    rfl
  · exact .inr ⟨outer, henclosed⟩

/-!
# What a body may name
-/

abbrev Encloses (p : Program) : FunId -> FunId -> Prop :=
  Relation.TransGen p.Nests

theorem Outermost.not_encloses {p : Program} {f : FunId} (h : p.Outermost f) (c : FunId) :
    ¬p.Encloses c f := by
  intro hencloses
  rcases Relation.TransGen.tail'_iff.mp hencloses with ⟨d, -, hd⟩
  exact h.free d hd

theorem Encloses.lt {p : Program} (hnested : p.Nested) {c f : FunId} (h : p.Encloses c f) :
    c < f := by
  induction h with
  | single hnests => exact (hnested.later hnests).1
  | tail _ hnests ih => exact Nat.lt_trans ih (hnested.later hnests).1

/-- Around a function stand the one that declares it and whatever stands around that one. -/
theorem Nested.encloses_iff {p : Program} (hnested : p.Nested) {c f : FunId} (hc : p.Nests c f)
    (o : FunId) : p.Encloses o f <-> p.Surrounds o c := by
  constructor
  · intro h
    rcases Relation.TransGen.tail'_iff.mp h with ⟨d, hod, hd⟩
    rw [hnested.parent hc hd]
    exact hod
  · intro h
    exact Relation.TransGen.tail'_iff.mpr ⟨c, h, hc⟩

theorem Surrounds.eq_or_encloses {p : Program} {c f : FunId} (h : p.Surrounds c f) :
    c = f ∨ p.Encloses c f := by
  rcases Relation.reflTransGen_iff_eq_or_transGen.mp h with heq | hencloses
  · exact .inl heq.symm
  · exact .inr hencloses

theorem Enclosed.surrounds_last {p : Program} {around : List Mention} {chain : List FunId}
    {f : FunId} (h : p.Enclosed around (f :: chain)) {o : FunId} (ho : o ∈ f :: chain) :
    p.Surrounds o f := by
  generalize hwhole : f :: chain = whole at h
  rw [hwhole] at ho
  induction h generalizing f chain with
  | outer _ =>
      cases hwhole
      rw [List.mem_singleton.mp ho]
  | inner hg _ ih =>
      cases hwhole
      rcases List.mem_cons.mp ho with rfl | ho
      · exact .refl
      · exact .tail (ih ho rfl) hg

theorem owner_of_fits {p : Program} {owners : List FunId} {m : Mention} (hm : m.Fits p owners)
    {id : VarId} (hid : m.variable? = some id) {o : FunId}
    (howner : (p.variableAt id).owner = some o) : o ∈ owners := by
  cases m with
  | read other | assign other | await other =>
      cases hid
      exact hm.2 o howner
  | start target f arity =>
      cases hid
      exact hm.1.2 o howner
  | declareVar other =>
      cases hid
      exact List.mem_of_mem_head? (hm.2.symm.trans howner)
  | _ => cases hid

section Bodies

variable {p : Program}

theorem WellFormed.surrounds (h : p.WellFormed) {f : FunId} {m : Mention}
    (hm : m ∈ p.mentionsOf f) {id : VarId} (hid : m.variable? = some id) {o : FunId}
    (howner : (p.variableAt id).owner = some o) : p.Surrounds o f := by
  rcases h.bodies f (lt_of_mem_mentionsOf hm) with hnative | ⟨-, outer, henclosed, hfit⟩
  · rw [mentionsOf, bodyOf, Option.isNone_iff_eq_none.mp hnative] at hm
    cases hm
  · have ho := owner_of_fits (hfit m hm) hid howner
    rw [List.append_nil] at ho
    exact henclosed.surrounds_last ho

theorem WellFormed.owner_root (h : p.WellFormed) {m : Mention}
    (hm : m ∈ Stmt.listMentions p.root) {id : VarId} (hid : m.variable? = some id) :
    (p.variableAt id).owner = none := by
  cases howner : (p.variableAt id).owner with
  | none => rfl
  | some o => exact absurd (owner_of_fits (h.root m hm) hid howner) List.not_mem_nil

theorem Nested.surrounds (h : p.Nested) {f g : FunId} {m : Mention} (hm : m ∈ p.mentionsOf f)
    (hcallee : m.callee? = some g) {o : FunId} (ho : p.Encloses o g) : p.Surrounds o f := by
  rcases Relation.TransGen.tail'_iff.mp ho with ⟨c, hoc, hc⟩
  exact hoc.trans (h.visible hm hcallee hc)

end Bodies

end Program

/-- The owner of the variable that is named is among the given functions, and so is whatever
stands around the function that is called. -/
structure Mention.Near (p : Program) (near : FunId -> Prop) (m : Mention) : Prop where
  owner : forall {id o}, m.variable? = some id -> (p.variableAt id).owner = some o -> near o
  callee : forall {g o}, m.callee? = some g -> p.Encloses o g -> near o

/-- A body names what is its own or belongs to the functions around it. -/
theorem Program.near_body {p : Program} (hwell : p.WellFormed) (hnested : p.Nested) {f : FunId}
    {near : FunId -> Prop} (hnear : forall o, p.Surrounds o f -> near o) :
    Admitted (Mention.Near p near) (p.mentionsOf f) := by
  intro m hm
  constructor
  · intro id o hid howner
    exact hnear o (hwell.surrounds hm hid howner)
  · intro g o hcallee ho
    exact hnear o (hnested.surrounds hm hcallee ho)

theorem Program.near_root {p : Program} (hwell : p.WellFormed) (hnested : p.WellNested)
    (near : FunId -> Prop) : Admitted (Mention.Near p near) (Stmt.listMentions p.root) := by
  intro m hm
  constructor
  · intro id o hid howner
    rw [hwell.owner_root hm hid] at howner
    cases howner
  · intro g o hcallee ho
    exact absurd ho ((hnested.calls hm hcallee).not_encloses o)

end Scriptlet
