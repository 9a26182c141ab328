import Scriptlet.Proofs.Binding.Expressions
import Scriptlet.Proofs.Binding.Lexical
import Scriptlet.Proofs.Program.Numbering

/-!
# Statements name what fits

A statement of the lexical reader leaves larger tables that still agree with each
other.  All that it mentions fits its place, and so does the body of every function
declared in it, below the functions that enclose that one.  A name that is visible never
stands for a function that a complete body declares, so the bodies nest.
-/

namespace Scriptlet

def Binding.global (b : Binding) : Global :=
  .of b.category b.id

/-- A place and tables in which its names stand for what fits. -/
structure Place.Ready (place : Place) (p : Program) : Prop where
  tables : p.Tables
  bindings : forall scope, scope ∈ place.scopes -> forall b, b ∈ scope -> b.Fits p place.owners
  owners : forall f, f ∈ place.owners -> f < p.functions.length
  nested : p.Nested
  visible : forall scope, scope ∈ place.scopes -> forall b, b ∈ scope ->
    b.category = .function -> p.Outermost b.id

/-- A mention that fits, declares no function and calls none that a body declares. -/
structure Mention.Stands (p : Program) (owners : List FunId) (m : Mention) : Prop where
  fits : m.Fits p owners
  plain : m.function? = none
  calls : forall f, m.callee? = some f -> p.Outermost f

def Place.listed (place : Place) : Option Binding -> List Global
  | some b => if place.around.isEmpty then [b.global] else []
  | none => []

theorem Binding.Fits.grow {q p : Program} {owners : List FunId} {b : Binding}
    (hb : b.Fits q owners) (h : q.Grows p) : b.Fits p owners where
  name := by
    have hname := hb.name
    cases hcategory : b.category with
    | const =>
        rw [hcategory] at hname
        exact (congrArg (·.name) (h.constant (hb.const hcategory))).trans hname
    | var =>
        rw [hcategory] at hname
        exact (congrArg (·.name) (h.variableAt (hb.var hcategory).1)).trans hname
    | function =>
        rw [hcategory] at hname
        exact (h.name (hb.function hcategory).1).trans hname
  const := fun hcategory => h.constants_lt (hb.const hcategory)
  var := fun hcategory => h.hasVar (hb.var hcategory)
  function := by
    intro hcategory
    have hfunction := hb.function hcategory
    exact ⟨h.functions_lt hfunction.1, (h.result hfunction.1).trans hfunction.2⟩

theorem Binding.Fits.within {p : Program} {owners owners' : List FunId} {b : Binding}
    (hb : b.Fits p owners) (howners : owners ⊆ owners') : b.Fits p owners' where
  name := hb.name
  const := hb.const
  var := fun hcategory =>
    ⟨(hb.var hcategory).1, fun f hf => howners ((hb.var hcategory).2 f hf)⟩
  function := hb.function

theorem Binding.fits_function {p : Program} {owners : List FunId} {b : Binding}
    (hcategory : b.category = .function) (hid : b.id < p.functions.length)
    (hname : (p.function b.id).name = b.name) (hresult : (p.function b.id).result = b.type) :
    b.Fits p owners where
  name := by
    rw [hcategory]
    exact hname
  const := fun h => nomatch hcategory.symm.trans h
  var := fun h => nomatch hcategory.symm.trans h
  function := fun _ => ⟨hid, hresult⟩

theorem Binding.Fits.setFunction {p : Program} {owners : List FunId} {b : Binding} {f : FunId}
    {entry : Function} (hb : b.Fits p owners) (hf : f < p.functions.length)
    (hname : entry.name = (p.function f).name) (hresult : entry.result = (p.function f).result) :
    b.Fits (p.setFunction f entry) owners := by
  cases hcategory : b.category with
  | const =>
      have hname := hb.name
      rw [hcategory] at hname
      refine ⟨?_, hb.const, hb.var, fun h => nomatch hcategory.symm.trans h⟩
      rw [hcategory]
      exact hname
  | var =>
      have hname := hb.name
      rw [hcategory] at hname
      refine ⟨?_, hb.const, hb.var, fun h => nomatch hcategory.symm.trans h⟩
      rw [hcategory]
      exact hname
  | function =>
      have hfunction := hb.function hcategory
      have hnamed := hb.name
      rw [hcategory] at hnamed
      apply fits_function hcategory
      · exact Nat.lt_of_lt_of_eq hfunction.1 (p.entries_setFunction f entry .function).symm
      · rw [p.function_setFunction hf]
        by_cases hid : b.id = f
        · rw [if_pos hid, hname, ← hid]
          exact hnamed
        · rw [if_neg hid]
          exact hnamed
      · rw [p.function_setFunction hf]
        by_cases hid : b.id = f
        · rw [if_pos hid, hresult, ← hid]
          exact hfunction.2
        · rw [if_neg hid]
          exact hfunction.2

theorem Mention.Stands.grow {q p : Program} {owners : List FunId} {m : Mention}
    (hm : m.Stands q owners) (h : q.Grows p) (hp : p.Nested) : m.Stands p owners where
  fits := h.fits hm.fits
  plain := hm.plain
  calls := fun f hf => (hm.calls f hf).grow h.extends hp

theorem Mention.stands_plain {p : Program} {owners : List FunId} {m : Mention}
    (hfits : m.Fits p owners) (hplain : m.function? = none) (hcallee : m.callee? = none) :
    m.Stands p owners where
  fits := hfits
  plain := hplain
  calls := by
    intro f hf
    rw [hcallee] at hf
    cases hf

theorem Program.nesting_of_stands {q p : Program} {owners : List FunId} {ms : List Mention}
    (hkept : q.Extends p) (hp : p.Nested) (hms : Admitted (Mention.Stands p owners) ms) :
    Program.Nesting q ms p :=
  .plain hkept hp fun m hm => ⟨(hms m hm).plain, (hms m hm).calls⟩

theorem Program.mentionsOf_setParams {p : Program} {f : FunId} (hf : f < p.functions.length)
    (params : List Param) (g : FunId) : (p.setParams f params).mentionsOf g = p.mentionsOf g := by
  rw [mentionsOf, mentionsOf, bodyOf, bodyOf, setParams, function_setFunction p hf]
  by_cases hg : g = f
  · rw [if_pos hg, hg]
  · rw [if_neg hg]

theorem Program.numbers_of_stands {p : Program} {owners : List FunId} {ms : List Mention}
    (hms : Admitted (Mention.Stands p owners) ms) :
    p.Numbers p.functions.length ms p.functions.length :=
  numbers_plain fun m hm => ⟨(hms m hm).plain, fun f hf => ((hms m hm).calls f hf).lt⟩

namespace Place.Ready

variable {place : Place} {q p : Program}

theorem grow (h : place.Ready q) (hgrows : q.Grows p) (htables : p.Tables) (hnested : p.Nested) :
    place.Ready p where
  tables := htables
  bindings := fun scope hscope b hb => (h.bindings scope hscope b hb).grow hgrows
  owners := fun f hf => hgrows.functions_lt (h.owners f hf)
  nested := hnested
  visible := fun scope hscope b hb hcategory =>
    (h.visible scope hscope b hb hcategory).grow hgrows.extends hnested

theorem behind (h : place.Ready p) {b : Binding} (hb : b.Fits p place.owners)
    (hvisible : b.category = .function -> p.Outermost b.id) : (place.behind b).Ready p where
  tables := h.tables
  bindings := by
    intro scope hscope b' hb'
    rcases List.mem_cons.mp hscope with rfl | hscope
    · rcases List.mem_append.mp hb' with hb' | hb'
      · exact h.bindings place.here List.mem_cons_self b' hb'
      · rw [List.mem_singleton.mp hb']
        exact hb
    · exact h.bindings scope (List.mem_cons_of_mem _ hscope) b' hb'
  owners := h.owners
  nested := h.nested
  visible := by
    intro scope hscope b' hb'
    rcases List.mem_cons.mp hscope with rfl | hscope
    · rcases List.mem_append.mp hb' with hb' | hb'
      · exact h.visible place.here List.mem_cons_self b' hb'
      · rw [List.mem_singleton.mp hb']
        exact hvisible
    · exact h.visible scope (List.mem_cons_of_mem _ hscope) b' hb'

theorem inBlock (h : place.Ready p) : place.inBlock.Ready p where
  tables := h.tables
  bindings := by
    intro scope hscope b hb
    rcases List.mem_cons.mp hscope with rfl | hscope
    · cases hb
    · exact h.bindings scope hscope b hb
  owners := h.owners
  nested := h.nested
  visible := by
    intro scope hscope b hb
    rcases List.mem_cons.mp hscope with rfl | hscope
    · cases hb
    · exact h.visible scope hscope b hb

theorem inFunction (h : place.Ready p) {f : FunId} (hf : f < p.functions.length) :
    (place.inFunction f).Ready p where
  tables := h.tables
  bindings := fun scope hscope b hb =>
    (h.inBlock.bindings scope hscope b hb).within (List.subset_cons_self f place.owners)
  owners := by
    intro g hg
    rcases List.mem_cons.mp hg with rfl | hg
    · exact hf
    · exact h.owners g hg
  nested := h.nested
  visible := h.inBlock.visible

theorem setParams (h : place.Ready p) {f : FunId} {params : List Param}
    (htables : (p.setParams f params).Tables) (hf : f < p.functions.length) :
    place.Ready (p.setParams f params) where
  tables := htables
  bindings := fun scope hscope b hb => (h.bindings scope hscope b hb).setFunction hf rfl rfl
  owners := fun g hg =>
    Nat.lt_of_lt_of_eq (h.owners g hg) (p.entries_setParams f params .function).symm
  nested :=
    h.nested.of_same (Nat.le_of_eq (p.entries_setParams f params .function).symm)
      (Program.mentionsOf_setParams hf params)
  visible := fun scope hscope b hb hcategory =>
    (h.visible scope hscope b hb hcategory).of_same
      (Nat.le_of_eq (p.entries_setParams f params .function).symm)
      (Program.mentionsOf_setParams hf params)

theorem find {name : String} {b : Binding} (h : place.Ready p) (hfind : place.find name = some b) :
    b.Fits p place.owners ∧ (b.category = .function -> p.Outermost b.id) := by
  rcases List.exists_of_findSome?_eq_some hfind with ⟨scope, hscope, hb⟩
  have hmem := List.mem_of_find?_eq_some hb
  exact ⟨h.bindings scope hscope b hmem, h.visible scope hscope b hmem⟩

theorem names (h : place.Ready p) : (place.names p).Fit place.owners :=
  fun _ _ hfind => (h.find hfind).1

theorem admits (h : place.Ready p) : (place.names p).Admit (Mention.Stands p place.owners) where
  const := fun hfind hcategory => Mention.stands_plain (h.names.admits.const hfind hcategory) rfl rfl
  var := by
    intro name b hfind hcategory
    rcases h.names.admits.var hfind hcategory with ⟨hread, hassign, hawait⟩
    exact ⟨Mention.stands_plain hread rfl rfl, Mention.stands_plain hassign rfl rfl,
      Mention.stands_plain hawait rfl rfl⟩
  function := by
    intro name b hfind hcategory
    rcases h.names.admits.function hfind hcategory with ⟨hresult, hcall⟩
    refine ⟨hresult, hcall, rfl, ?_⟩
    intro f hf
    cases hf
    exact (h.find hfind).2 hcategory

end Place.Ready

/-!
# Declarations
-/

def Leaves {α : Type} (x : Lexical α) (q : Program) (post : α -> Program -> Prop) : Prop :=
  forall t : LexicalState, t.program = q ->
    Ensures ParseError.Regular x t fun a t' => post a t'.program

section Rules

variable {α β : Type} {q : Program} {mid : α -> Program -> Prop} {post : β -> Program -> Prop}

theorem leaves_pure {b : β} (h : post b q) : Leaves (pure b) q post := by
  rintro t rfl
  exact h

theorem Leaves.bind {x : Lexical α} {f : α -> Lexical β} (hx : Leaves x q mid)
    (hf : forall a p, mid a p -> Leaves (f a) p post) : Leaves (x >>= f) q post := by
  intro t ht
  apply (hx t ht).bind
  intro a t' ha
  exact hf a t'.program ha t' rfl

theorem Leaves.mono {x : Lexical β} {post' : β -> Program -> Prop} (hx : Leaves x q post)
    (himp : forall b p, post b p -> post' b p) : Leaves x q post' := by
  intro t ht
  exact (hx t ht).mono fun b t' hb => himp b t'.program hb

theorem Leaves.ite {c : Prop} [Decidable c] {x y : Lexical β} (hx : c -> Leaves x q post)
    (hy : ¬c -> Leaves y q post) : Leaves (if c then x else y) q post := by
  by_cases hc : c
  · rw [if_pos hc]
    exact hx hc
  · rw [if_neg hc]
    exact hy hc

theorem leaves_fail {cause : ParseCause} (pos : Option Pos)
    (hcause : forall name, cause ≠ .inconsistentFunction name) :
    Leaves (Parse.fail cause pos : Lexical β) q post :=
  fun _ _ => hcause

theorem leaves_onTokens {good : α -> Prop} {p : TokenParse α} (hp : Gives p good) :
    Leaves (liftM p : Lexical α) q fun a p => good a ∧ p = q := by
  rintro t rfl
  have hgives := hp t.tokens
  change Ensures ParseError.Regular (Lexical.onTokens p) t _
  unfold Ensures at hgives ⊢
  unfold Lexical.onTokens
  cases hanswer : p t.tokens with
  | error e =>
      rw [hanswer] at hgives
      exact hgives
  | ok answer =>
      rw [hanswer] at hgives
      exact ⟨hgives, rfl⟩

theorem leaves_read {good : α -> Prop} {p : TokenParse α} (hp : Gives p good)
    {f : α -> Lexical β} (hf : forall a, good a -> Leaves (f a) q post) :
    Leaves ((liftM p : Lexical α) >>= f) q post := by
  apply (leaves_onTokens hp).bind
  rintro a _ ⟨ha, rfl⟩
  exact hf a ha

theorem leaves_withNames {good : α -> Prop} {place : Place} {p : Names -> TokenParse α}
    (hp : Gives (p (place.names q)) good) :
    Leaves (Lexical.withNames place p) q fun a p => good a ∧ p = q := by
  rintro t rfl
  exact leaves_onTokens hp t rfl

theorem leaves_readNames {good : α -> Prop} {place : Place} {p : Names -> TokenParse α}
    (hp : Gives (p (place.names q)) good) {f : α -> Lexical β}
    (hf : forall a, good a -> Leaves (f a) q post) :
    Leaves (Lexical.withNames place p >>= f) q post := by
  apply (leaves_withNames hp).bind
  rintro a _ ⟨ha, rfl⟩
  exact hf a ha

theorem leaves_failExpected (expected : Expectation) :
    Leaves (liftM (Parse.failExpected expected : TokenParse β) : Lexical β) q post :=
  (leaves_onTokens (gives_failExpected expected)).mono fun _ _ (h : False ∧ _) => h.1.elim

theorem leaves_freshScope {f : Nat -> Lexical β} (hf : forall scope, Leaves (f scope) q post) :
    Leaves (Lexical.freshScope >>= f) q post := by
  rintro t rfl
  exact hf t.nextScope { t with nextScope := t.nextScope + 1 } rfl

theorem leaves_get {f : LexicalState -> Lexical β}
    (hf : forall t, t.program = q -> Leaves (f t) q post) : Leaves (get >>= f) q post :=
  fun t ht => hf t ht t ht

theorem leaves_changeProgram {change : Program -> Program} {f : Unit -> Lexical β}
    (hf : Leaves (f ()) (change q) post) :
    Leaves (Lexical.changeProgram change >>= f) q post := by
  rintro t rfl
  exact hf { t with program := change t.program } rfl

end Rules

section Declare

variable {place : Place} {q : Program}

theorem leaves_declare {category : Category} {name : String} {type : ValueType}
    {pos : Option Pos} {enter : Program -> Program} (post : Binding -> Program -> Prop)
    (h : forall b : Binding,
      b = { category := category, name := name, id := q.entries category, type := type } ->
      place.isDeclaredHere b.name = false ->
      post b (enter (q.addGlobals (place.listed (some b))))) :
    Leaves (Lexical.declare place category name type pos enter) q post := by
  apply Leaves.ite
  · intro _
    exact leaves_fail pos fun _ h => nomatch h
  · rintro hfresh t rfl
    have hpost := h _ rfl (Bool.eq_false_iff.mpr hfresh)
    by_cases houter : place.around.isEmpty = true
    · simp only [Place.listed, houter] at hpost
      simpa [Lexical.changeProgram, houter, Program.addGlobals, Program.addGlobal,
        Binding.global] using hpost
    · simp only [Place.listed, houter] at hpost
      simpa [Lexical.changeProgram, houter, Program.addGlobals] using hpost

structure Declares (place : Place) (q : Program) (kind : Category) (b : Binding) (p : Program) :
    Prop where
  tables : p.Tables
  grows : q.Grows p
  fits : b.Fits p place.owners
  nested : p.Nested
  visible : b.category = .function -> p.Outermost b.id
  fresh : place.isDeclaredHere b.name = false
  category : b.category = kind
  id : b.id = q.entries kind
  entries : forall c, p.entries c = q.entries c + if kind = c then 1 else 0
  globals : p.globals = q.globals ++ place.listed (some b)

variable (h : place.Ready q)

include h

theorem leaves_declareConst (name : String) {type : ValueType} {value : Value}
    (hvalue : value.type = type) (pos : Option Pos) :
    Leaves (Lexical.declareConst place name type value pos) q fun b p =>
      Declares place q .const b p ∧
        p.constant b.id = { name := name, type := type, value := value } := by
  let entry : Constant := { name := name, type := type, value := value }
  refine leaves_declare (fun b p => Declares place q .const b p ∧
    p.constant b.id = entry) ?_
  intro b hb hfresh
  let listed := q.addGlobals (place.listed (some b))
  have hid : b.id = q.constants.length := congrArg Binding.id hb
  have hcategory : b.category = .const := congrArg Binding.category hb
  have hname : b.name = name := congrArg Binding.name hb
  have hentry : (listed.addConstant entry).constant b.id = entry := by
    rw [hid]
    exact listed.constant_addConstant entry
  have hfits : b.Fits (listed.addConstant entry) place.owners := by
    refine ⟨?_, fun _ => ?_, fun h => ?_, fun h => ?_⟩
    · rw [hcategory, hname]
      exact congrArg Constant.name hentry
    · rw [hid]
      exact Nat.lt_of_lt_of_eq (Nat.lt_succ_self _)
        (listed.entries_addConstant entry .const).symm
    · rw [hcategory] at h
      cases h
    · rw [hcategory] at h
      cases h
  have hgrows := (q.grows_addGlobals _).trans (listed.grows_addConstant entry)
  refine ⟨⟨?_, hgrows, hfits, ?_, ?_, hfresh, hcategory, hid, ?_, rfl⟩, hentry⟩
  · exact (h.tables.addGlobals _).addConstant hvalue
  · exact hgrows.nested (listed.entries_addConstant entry .function) h.nested
  · exact fun h => nomatch hcategory.symm.trans h
  · exact fun c => listed.entries_addConstant entry c

theorem leaves_declareVar (name : String) {type : ValueType} {default : Option Value}
    (hdefault : forall value, default = some value -> value.type = type) (pos : Option Pos) :
    Leaves (Lexical.declareVar place name type default pos) q fun b p =>
      Declares place q .var b p ∧
        p.variableAt b.id =
          { name := name, type := type, owner := place.owners.head?,
            slot := q.slotCount place.owners.head?, default := default } ∧
        p.slotCount place.owners.head? =
          q.slotCount place.owners.head? + 1 := by
  let owner := place.owners.head?
  let entry : Variable :=
    { name := name, type := type, owner := owner, slot := q.slotCount owner,
      default := default }
  refine leaves_declare (fun b p => Declares place q .var b p ∧
    p.variableAt b.id = entry ∧ p.slotCount owner = q.slotCount owner + 1) ?_
  intro b hb hfresh
  let listed := q.addGlobals (place.listed (some b))
  have hid : b.id = q.vars.length := congrArg Binding.id hb
  have hcategory : b.category = .var := congrArg Binding.category hb
  have hname : b.name = name := congrArg Binding.name hb
  have hslot : listed.slotCount owner = q.slotCount owner := by
    cases owner <;> rfl
  have hentry : (listed.addVar owner name type default).variableAt b.id = entry := by
    rw [Program.variableAt_addVar, hid, hslot]
    exact if_pos rfl
  have hfits : b.Fits (listed.addVar owner name type default) place.owners := by
    refine ⟨?_, fun h => ?_, fun _ => ⟨?_, ?_⟩, fun h => ?_⟩
    · rw [hcategory, hname]
      exact congrArg Variable.name hentry
    · rw [hcategory] at h
      cases h
    · rw [hid]
      exact Nat.lt_of_lt_of_eq (Nat.lt_succ_self _)
        (listed.entries_addVar owner name type default .var).symm
    · intro f hf
      rw [hentry] at hf
      exact List.mem_of_mem_head? hf
    · rw [hcategory] at h
      cases h
  have howner : forall f, owner = some f -> f < q.functions.length :=
    fun f hf => h.owners f (List.mem_of_mem_head? hf)
  have hgrows := (q.grows_addGlobals _).trans (listed.grows_addVar owner name type default)
  refine ⟨⟨?_, hgrows, hfits, ?_, ?_, hfresh, hcategory, hid, ?_, ?_⟩, hentry, ?_⟩
  · exact (h.tables.addGlobals _).addVar name howner hdefault
  · exact hgrows.nested (listed.entries_addVar owner name type default .function) h.nested
  · exact fun h => nomatch hcategory.symm.trans h
  · exact fun c => listed.entries_addVar owner name type default c
  · show (listed.addSlot owner).globals = _
    cases owner <;> rfl
  · rw [Program.slotCount_addVar listed owner name type default howner, if_pos rfl, hslot]

theorem leaves_declareFunction (name : String) (result : ValueType) {body : Option Block}
    (hpending : forall block, body = some block -> block.body = []) (pos : Option Pos) :
    Leaves (Lexical.declareFunction place name result body pos) q fun b p =>
      Declares place q .function b p ∧
        p.function b.id =
          { name := name, params := [], result := result, body := body, localCount := 0 } := by
  let entry : Function :=
    { name := name, params := [], result := result, body := body, localCount := 0 }
  refine leaves_declare (fun b p => Declares place q .function b p ∧
    p.function b.id = entry) ?_
  intro b hb hfresh
  let listed := q.addGlobals (place.listed (some b))
  have hid : b.id = q.functions.length := congrArg Binding.id hb
  have hcategory : b.category = .function := congrArg Binding.category hb
  have hname : b.name = name := congrArg Binding.name hb
  have htype : b.type = result := congrArg Binding.type hb
  have hentry : (listed.addFunction name result body).function b.id = entry := by
    rw [Program.function_addFunction, hid]
    exact if_pos rfl
  have hfits : b.Fits (listed.addFunction name result body) place.owners := by
    refine ⟨?_, fun h => ?_, fun h => ?_, fun _ => ⟨?_, ?_⟩⟩
    · rw [hcategory, hname]
      exact congrArg Function.name hentry
    · rw [hcategory] at h
      cases h
    · rw [hcategory] at h
      cases h
    · rw [hid]
      exact Nat.lt_of_lt_of_eq (Nat.lt_succ_self _)
        (listed.entries_addFunction name result body .function).symm
    · rw [hentry, htype]
  have hgrows := (q.grows_addGlobals _).trans (listed.grows_addFunction name result body)
  have hnew : (listed.addFunction name result body).mentionsOf b.id = [] := by
    rw [Program.mentionsOf, Program.bodyOf, hentry]
    cases hbody : body with
    | none => simp [entry, hbody, Stmt.listMentions]
    | some block => simp [entry, hbody, hpending block hbody, Stmt.listMentions]
  have hsame : forall c, (listed.addFunction name result body).mentionsOf c = q.mentionsOf c := by
    apply hgrows.extends.same
    intro c hc
    rcases Nat.eq_or_lt_of_le hc with heq | hgt
    · rw [← heq, ← hid]
      exact hnew
    · apply Program.mentionsOf_eq_nil
      exact Nat.le_trans (Nat.le_of_eq (listed.entries_addFunction name result body .function)) hgt
  refine ⟨⟨?_, hgrows, hfits, ?_, ?_, hfresh, hcategory, hid, ?_, rfl⟩, hentry⟩
  · exact (h.tables.addGlobals _).addFunction name result body
  · exact h.nested.of_same hgrows.functions hsame
  · intro _
    refine ⟨(hfits.function hcategory).1, ?_⟩
    intro c hc
    rw [Program.Nests, hsame] at hc
    exact absurd (h.nested.later hc).2 (Nat.not_lt.mpr (Nat.le_of_eq hid.symm))
  · exact fun c => listed.entries_addFunction name result body c

end Declare

theorem Declares.ready {place : Place} {q p : Program} {kind : Category} {b : Binding}
    (h : Declares place q kind b p) (hready : place.Ready q) : (place.behind b).Ready p :=
  (hready.grow h.grows h.tables h.nested).behind h.fits h.visible

theorem Declares.functions {place : Place} {q p : Program} {kind : Category} {b : Binding}
    (h : Declares place q kind b p) (hkind : kind ≠ .function) :
    p.functions.length = q.functions.length := by
  have hentries := h.entries .function
  rw [if_neg hkind] at hentries
  exact hentries

/-!
# Parameters
-/

/-- What the declaration of parameters does in the scope of a function. -/
structure DeclaresParams (place : Place) (q : Program) (types : List ValueType)
    (params : List Param) (inside : Place) (p : Program) : Prop where
  ready : inside.Ready p
  around : inside.around = place.around
  owners : inside.owners = place.owners
  grows : q.Grows p
  functions : p.functions.length = q.functions.length
  globals : p.globals = q.globals
  types : params.map (·.type) = types
  slots : forall i param, params[i]? = some param ->
    param.var < p.vars.length ∧ (p.variableAt param.var).owner = place.owners.head? ∧
      (p.variableAt param.var).slot = q.slotCount place.owners.head? + i ∧
      (p.variableAt param.var).type = param.type

theorem leaves_declareParams (params : List Parse.Parameter) {place : Place} {q : Program}
    (h : place.Ready q) (hinner : place.around ≠ []) :
    Leaves (Lexical.declareParams params place) q fun answer p =>
      DeclaresParams place q (params.map (·.type)) answer.1 answer.2 p := by
  induction params generalizing place q with
  | nil =>
      refine leaves_pure ⟨h, rfl, rfl, .refl _, rfl, rfl, rfl, ?_⟩
      intro i param hparam
      cases hparam
  | cons p rest ih =>
      apply (leaves_declareVar h p.name (by simp) p.pos).bind
      rintro b q₁ ⟨hb, hentry, hcount⟩
      apply (ih (hb.ready h) hinner).bind
      rintro ⟨rest', inside⟩ q₂ hrest
      have hglobals : q₁.globals = q.globals := by
        rw [hb.globals, Place.listed, if_neg (by simpa using hinner), List.append_nil]
      refine leaves_pure ⟨hrest.ready, hrest.around, hrest.owners, hb.grows.trans hrest.grows, ?_,
        hrest.globals.trans hglobals, congrArg (p.type :: ·) hrest.types, ?_⟩
      · exact hrest.functions.trans (hb.functions (by decide))
      · intro i param hparam
        cases i with
        | zero =>
            have hvar := (hb.fits.var hb.category).1
            cases hparam
            refine ⟨hrest.grows.vars_lt hvar, ?_⟩
            rw [hrest.grows.variableAt hvar, hentry]
            exact ⟨rfl, rfl, rfl⟩
        | succ i =>
            have hslots := hrest.slots i param hparam
            change _ ∧ _ ∧ _ = q₁.slotCount place.owners.head? + i ∧ _ at hslots
            rw [hcount, Nat.add_assoc, Nat.add_comm 1 i] at hslots
            exact hslots

theorem DeclaresParams.tables {place inside : Place} {q p : Program} {f : FunId}
    {types : List ValueType} {params : List Param}
    (h : DeclaresParams (place.inFunction f) q types params inside p)
    (hf : f < q.functions.length) (hslots : (q.function f).localCount = 0) :
    (p.setParams f params).Tables := by
  refine h.ready.tables.setFunction (h.grows.functions_lt hf) rfl ?_
  intro i param hparam
  have hslot := h.slots i param hparam
  change _ ∧ _ ∧ _ = (q.function f).localCount + i ∧ _ at hslot
  rw [hslots, Nat.zero_add] at hslot
  exact hslot

/-!
# Statements
-/

structure Progress (owners : List FunId) (q : Program) (ms : List Mention)
    (listed : List Global) (p : Program) : Prop where
  tables : p.Tables
  grows : q.Grows p
  mentions : p.AllFit owners ms
  bodies : forall f, q.functions.length ≤ f -> f < p.functions.length -> p.BodyFits ms owners f
  nesting : Program.Nesting q ms p
  numbers : p.Numbers q.functions.length ms p.functions.length
  globals : p.globals = q.globals ++ listed

namespace Progress

variable {owners : List FunId} {q p r : Program} {ms ms' : List Mention}
  {listed listed' : List Global}

theorem unchanged {place : Place} (hq : place.Ready q)
    (hms : Admitted (Mention.Stands q place.owners) ms) : Progress place.owners q ms [] q where
  tables := hq.tables
  grows := .refl q
  mentions := fun m hm => (hms m hm).fits
  bodies := fun _ hold hnew => absurd hnew (Nat.not_lt.mpr hold)
  nesting := Program.nesting_of_stands (Program.Grows.refl q).extends hq.nested hms
  numbers := Program.numbers_of_stands hms
  globals := (List.append_nil _).symm

theorem append (h : Progress owners q ms listed p) (h' : Progress owners p ms' listed' r) :
    Progress owners q (ms ++ ms') (listed ++ listed') r where
  tables := h'.tables
  grows := h.grows.trans h'.grows
  mentions := Program.allFit_append.mpr ⟨h'.grows.allFit h.mentions, h'.mentions⟩
  bodies := by
    intro f hold hnew
    by_cases hf : f < p.functions.length
    · exact (h.bodies f hold hf).grow hf h'.grows (List.subset_append_left ms ms')
    · exact (h'.bodies f (Nat.le_of_not_lt hf) hnew).grow hnew (.refl r)
        (List.subset_append_right ms ms')
  nesting := h.nesting.append h'.nesting
  numbers := (h.numbers.of_same fun _ _ hlt => h'.grows.mentionsOf hlt).append h'.numbers
  globals := by
    rw [h'.globals, h.globals, List.append_assoc]

end Progress

structure ReadsStmt (place : Place) (q : Program) (answer : Stmt × Option Binding) (p : Program) :
    Prop where
  progress : Progress place.owners q answer.1.mentions (place.listed answer.2) p
  declared : forall b, answer.2 = some b ->
    b.Fits p place.owners ∧ place.isDeclaredHere b.name = false ∧
      b.id = q.entries b.category ∧ answer.1.global? = some b.global
  visible : forall b, answer.2 = some b -> b.category = .function -> p.Outermost b.id
  known : answer.2 = none -> forall g, answer.1.global? = some g ->
    exists name b, place.find name = some b ∧ b.global = g

theorem ReadsStmt.ready {place : Place} {q p : Program} {answer : Stmt × Option Binding}
    (h : ReadsStmt place q answer p) (hready : place.Ready q) :
    (place.after answer.2).Ready p := by
  have hplace := hready.grow h.progress.grows h.progress.tables h.progress.nesting.nested
  cases hdeclared : answer.2 with
  | none => exact hplace
  | some b => exact hplace.behind (h.declared b hdeclared).1 (h.visible b hdeclared)

theorem Declares.readsStmt {place : Place} {q p : Program} {kind : Category} {b : Binding}
    {s : Stmt} (h : Declares place q kind b p) (hkind : kind ≠ .function)
    (hs : s.global? = some b.global)
    (hmentions : Admitted (Mention.Stands p place.owners) s.mentions) :
    ReadsStmt place q (s, some b) p where
  progress :=
    { tables := h.tables
      grows := h.grows
      mentions := fun m hm => (hmentions m hm).fits
      nesting := Program.nesting_of_stands h.grows.extends h.nested hmentions
      numbers := by
        rw [← h.functions hkind]
        exact Program.numbers_of_stands hmentions
      bodies := by
        intro f hold hnew
        rw [h.functions hkind] at hnew
        exact absurd hnew (Nat.not_lt.mpr hold)
      globals := h.globals }
  declared := by
    rintro _ ⟨⟩
    exact ⟨h.fits, h.fresh, h.category ▸ h.id, hs⟩
  visible := by
    rintro _ ⟨⟩
    exact h.visible
  known := fun hnone => nomatch hnone

theorem readsStmt_plain {place : Place} {q p : Program} {s : Stmt}
    (hprogress : Progress place.owners q s.mentions [] p) (hs : s.global? = none) :
    ReadsStmt place q (s, none) p where
  progress := hprogress
  declared := fun _ hsome => nomatch hsome
  visible := fun _ hsome => nomatch hsome
  known := by
    intro _ g hg
    rw [hs] at hg
    cases hg

section Plain

variable {place : Place} {q : Program}

theorem leaves_plain {x : Lexical Stmt}
    (hx : Leaves x q fun s p => Progress place.owners q s.mentions [] p ∧ s.global? = none) :
    Leaves (Lexical.plain x) q (ReadsStmt place q) := by
  apply hx.bind
  rintro s p ⟨hprogress, hs⟩
  exact leaves_pure (readsStmt_plain hprogress hs)

variable (h : place.Ready q)

include h

theorem leaves_namesOnly {p : Names -> TokenParse Stmt}
    (hp : Gives (p (place.names q)) (Stmt.PlainWithin (Mention.Stands q place.owners))) :
    Leaves (Lexical.plain (Lexical.withNames place p)) q (ReadsStmt place q) := by
  apply leaves_plain
  apply (leaves_withNames hp).mono
  rintro s _ ⟨⟨hs, hmentions⟩, rfl⟩
  exact ⟨.unchanged h hmentions, hs⟩

theorem leaves_constDecl : Leaves (Lexical.constDecl place) q (ReadsStmt place q) := by
  apply leaves_read (givesAny_expect _)
  intro word _
  apply leaves_read (givesAny_expect _)
  intro name _
  apply leaves_read (givesAny_expect _)
  intro colon _
  apply leaves_read gives_expectType
  intro type _
  apply leaves_read (givesAny_expect _)
  intro equal _
  apply leaves_readNames (gives_constInitializer _ name.text type)
  intro value hvalue
  apply (leaves_declareConst h name.text hvalue _).bind
  rintro b p ⟨hb, -⟩
  refine leaves_pure (hb.readsStmt (by decide) ?_ ?_)
  · rw [Binding.global, hb.category]
    rfl
  · have hconst : Mention.Fits p place.owners (.declareConst b.id) := hb.fits.const hb.category
    exact admitted_cons.mpr ⟨Mention.stands_plain hconst rfl rfl, admitted_nil⟩

theorem leaves_varDecl : Leaves (Lexical.varDecl place) q (ReadsStmt place q) := by
  apply leaves_read (givesAny_expect _)
  intro word _
  apply leaves_read (givesAny_expect _)
  intro name _
  apply leaves_read (givesAny_expect _)
  intro colon _
  apply leaves_read gives_expectType
  intro type _
  apply leaves_read (givesAny_accept _)
  intro hasInit _
  -- With or without an initializer, the declaration comes behind it.
  have hrest : forall init : Option Expr,
      (forall e, init = some e -> e.Within (Mention.Stands q place.owners)) ->
      Leaves (do
        let b ← Lexical.declareVar place name.text type none (some name.pos)
        return (.varDecl word.pos b.id init, some b)) q (ReadsStmt place q) := by
    intro init hinit
    apply (leaves_declareVar h name.text (by simp) _).bind
    rintro b p ⟨hb, hentry, -⟩
    refine leaves_pure (hb.readsStmt (by decide) ?_ ?_)
    · rw [Binding.global, hb.category]
      rfl
    · have hvar : Mention.Fits p place.owners (.declareVar b.id) :=
        ⟨(hb.fits.var hb.category).1, by rw [hentry]⟩
      have hstands : Mention.Stands p place.owners (.declareVar b.id) :=
        Mention.stands_plain hvar rfl rfl
      cases init with
      | none => exact admitted_cons.mpr ⟨hstands, admitted_nil⟩
      | some e =>
          refine admitted_cons.mpr ⟨hstands, ?_⟩
          exact fun m hm => (hinit e rfl m hm).grow hb.grows hb.nested
  apply Leaves.ite
  · intro _
    have hinit : Leaves (some <$> Lexical.withNames place Parse.expression) q fun init p =>
        (forall e, init = some e -> e.Within (Mention.Stands q place.owners)) ∧ p = q := by
      rw [map_eq_pure_bind]
      apply leaves_readNames (gives_expression h.admits)
      intro e he
      refine leaves_pure ⟨?_, rfl⟩
      rintro _ ⟨⟩
      exact he
    apply hinit.bind
    rintro init _ ⟨hinit, rfl⟩
    exact hrest init hinit
  · intro _
    exact hrest none (by simp)

theorem leaves_asyncStmt : Leaves (Lexical.asyncStmt place) q (ReadsStmt place q) := by
  apply leaves_read (givesAny_expect _)
  intro word _
  apply leaves_read (givesAny_expect _)
  intro name _
  apply leaves_read (givesAny_accept _)
  intro isDecl _
  apply Leaves.ite
  · intro _
    apply leaves_read gives_expectType
    intro type _
    apply leaves_read (givesAny_expect _)
    intro equal _
    apply leaves_readNames (gives_asyncCall h.admits name.text type)
    rintro ⟨callee, args⟩ ⟨hargs, hcallee, hresult, hsome⟩
    apply (leaves_declareVar h name.text (by simp) _).bind
    rintro b p ⟨hb, hentry, -⟩
    refine leaves_pure (hb.readsStmt (by decide) ?_ ?_)
    · rw [Binding.global, hb.category]
      rfl
    · have hstart : Mention.Fits p place.owners (.start b.id callee args.length) := by
        have hfunction : q.HasFunction callee args.length := hcallee.fits
        refine ⟨hb.fits.var hb.category, hb.grows.hasFunction hfunction, ?_⟩
        rw [hb.grows.result hfunction.1, hentry]
        exact ⟨hresult, hsome⟩
      refine admitted_cons.mpr ⟨⟨hstart, rfl, ?_⟩, ?_⟩
      · exact fun f hf => (hcallee.calls f hf).grow hb.grows.extends hb.nested
      · exact fun m hm => (hargs m hm).grow hb.grows hb.nested
  · intro _
    apply leaves_read (givesAny_expect _)
    intro assign _
    apply leaves_readNames (gives_lookupVar _ name.text name.pos)
    rintro target ⟨b, hfind, hcategory, rfl⟩
    have htarget := (h.find hfind).1.var hcategory
    apply leaves_get
    rintro t rfl
    apply leaves_readNames (gives_asyncCall h.admits name.text _)
    rintro ⟨callee, args⟩ ⟨hargs, hcallee, hresult, hsome⟩
    refine leaves_pure ⟨.unchanged h ?_, (fun _ hsome => nomatch hsome),
      (fun _ hsome => nomatch hsome), ?_⟩
    · have hstart : Mention.Fits t.program place.owners (.start b.id callee args.length) :=
        ⟨htarget, hcallee.fits, hresult, hsome⟩
      exact admitted_cons.mpr ⟨⟨hstart, rfl, hcallee.calls⟩, hargs⟩
    · rintro - _ ⟨⟩
      refine ⟨name.text, b, hfind, ?_⟩
      rw [Binding.global, hcategory]
      rfl

end Plain

/-!
# Nested statements
-/

section Nested

variable {inner : Place -> Lexical (Stmt × Option Binding)}
  (hinner : forall place q, place.Ready q -> Leaves (inner place) q (ReadsStmt place q))
  {place : Place} {q : Program} (h : place.Ready q)

include hinner h

theorem leaves_blockRestWithin (limit : Nat) (haround : place.around ≠ []) :
    Leaves (Lexical.blockRestWithin inner limit place) q fun body p =>
      Progress place.owners q (Stmt.listMentions body) [] p := by
  induction limit generalizing place q with
  | zero => exact leaves_failExpected _
  | succ limit ih =>
      apply leaves_read (givesAny_accept _)
      intro isClosed _
      apply Leaves.ite
      · intro _
        exact leaves_pure (.unchanged h admitted_nil)
      · intro _
        apply leaves_read givesAny_currentKind
        intro kind _
        apply Leaves.ite
        · intro _
          exact leaves_failExpected _
        · intro _
          apply (hinner place q h).bind
          rintro ⟨stmt, declared⟩ p hstmt
          have hafter : (place.after declared).around = place.around ∧
              (place.after declared).owners = place.owners := by
            cases declared <;> exact ⟨rfl, rfl⟩
          have hlisted : place.listed declared = [] := by
            cases declared with
            | none => rfl
            | some b => exact if_neg (by simpa using haround)
          apply (ih (hstmt.ready h) (hafter.1 ▸ haround)).bind
          intro rest r hrest
          have hprogress := hstmt.progress
          rw [hlisted] at hprogress
          rw [hafter.2] at hrest
          exact leaves_pure (hprogress.append hrest)

theorem leaves_blockRest (haround : place.around ≠ []) :
    Leaves (Lexical.blockRest inner place) q fun body p =>
      Progress place.owners q (Stmt.listMentions body) [] p :=
  leaves_read givesAny_tokensLeft fun limit _ => leaves_blockRestWithin hinner h limit haround

theorem leaves_block :
    Leaves (Lexical.block inner place) q fun block p =>
      Progress place.owners q (Stmt.listMentions block.body) [] p := by
  apply leaves_read (givesAny_expect _)
  intro brace _
  apply leaves_freshScope
  intro scope
  apply (leaves_blockRest hinner h.inBlock (List.cons_ne_nil _ _)).bind
  intro body p hbody
  exact leaves_pure hbody

theorem leaves_blockStmt :
    Leaves (Lexical.blockStmt inner place) q fun s p =>
      Progress place.owners q s.mentions [] p ∧ s.global? = none := by
  apply (leaves_block hinner h).bind
  intro body p hbody
  exact leaves_pure ⟨hbody, rfl⟩

theorem leaves_guarded {stmt : Token -> Expr -> Block -> Stmt}
    (hmentions : forall word cond body,
      (stmt word cond body).mentions = cond.mentions ++ Stmt.listMentions body.body)
    (hglobal : forall word cond body, (stmt word cond body).global? = none) :
    Leaves (do
      let word ← Parse.advance
      let cond ← Lexical.withNames place Parse.expression
      let body ← Lexical.block inner place
      return stmt word cond body) q fun s p =>
      Progress place.owners q s.mentions [] p ∧ s.global? = none := by
  apply leaves_read givesAny_advance
  intro word _
  apply leaves_readNames (gives_expression h.admits)
  intro cond hcond
  apply (leaves_block hinner h).bind
  intro body p hbody
  refine leaves_pure ⟨?_, hglobal word cond body⟩
  rw [hmentions]
  exact (Progress.unchanged h hcond).append hbody

/-- What reading the parameters and the body of a function does.  The function is the
last one in the tables, and what is older than it is kept. -/
structure ReadsBody (owners : List FunId) (q : Program) (f : Nat) (ms : List Mention)
    (p : Program) : Prop where
  tables : p.Tables
  kept : forall older : Program, older.Grows q -> older.functions.length ≤ f -> older.Grows p
  entry : exists params slots,
    p.function f = { q.function f with params := params, localCount := slots }
  exactParams : p.ParamsExact f
  lt : f < p.functions.length
  mentions : p.AllFit (f :: owners) ms
  bodies : forall g, f < g -> g < p.functions.length -> p.BodyFits ms (f :: owners) g
  nesting : Program.Nesting q ms p
  numbers : p.Numbers (f + 1) ms p.functions.length
  globals : p.globals = q.globals

theorem leaves_functionBody {f : Nat} (hf : q.functions.length = f + 1)
    (hslots : (q.function f).localCount = 0) {params : List Parse.Parameter}
    (hexact : ExactTypes params) :
    Leaves (Lexical.functionBody inner place f params) q fun body p =>
      ReadsBody place.owners q f (Stmt.listMentions body.body) p := by
  have hlt : f < q.functions.length := by omega
  apply leaves_freshScope
  intro scope
  apply (leaves_declareParams params (h.inFunction hlt) (List.cons_ne_nil _ _)).bind
  rintro ⟨bound, inside⟩ q₁ hparams
  have hlt₁ : f < q₁.functions.length := hparams.grows.functions_lt hlt
  have htables : (q₁.setParams f bound).Tables := hparams.tables hlt hslots
  apply leaves_changeProgram
  apply leaves_read (givesAny_expect _)
  intro brace _
  have haround : inside.around ≠ [] := by
    rw [hparams.around]
    exact List.cons_ne_nil _ _
  apply (leaves_blockRest hinner (hparams.ready.setParams htables hlt₁) haround).bind
  intro body p hbody
  rw [hparams.owners] at hbody
  have hlength : (q₁.setParams f bound).functions.length = f + 1 :=
    (q₁.entries_setParams f bound .function).trans (hparams.functions.trans hf)
  have hlt₂ : f < (q₁.setParams f bound).functions.length := by omega
  have hextends : q₁.Extends (q₁.setParams f bound) :=
    ⟨Nat.le_of_eq (q₁.entries_setParams f bound .function).symm,
      fun c _ => Program.mentionsOf_setParams hlt₁ bound c⟩
  have hnesting := hbody.nesting.after (hparams.grows.extends.trans hextends)
  have hnumbers := hbody.numbers
  rw [hlength] at hnumbers
  refine leaves_pure ⟨hbody.tables, ?_, ?_, ?_, ?_, hbody.mentions, ?_, hnesting, hnumbers, ?_⟩
  · intro older holder hold
    have hset := (holder.trans hparams.grows).setFunction hold
      { q₁.function f with params := bound }
    exact hset.trans hbody.grows
  · rcases hbody.grows.kept f hlt₂ with ⟨slots, hslots⟩
    rcases hparams.grows.kept f hlt with ⟨slots₁, hslots₁⟩
    refine ⟨bound, slots, ?_⟩
    rw [hslots, Program.setParams, Program.function_setFunction q₁ hlt₁, if_pos rfl, hslots₁]
  · intro param hparam
    rw [hbody.grows.params hlt₂, Program.setParams, Program.function_setFunction q₁ hlt₁,
      if_pos rfl] at hparam
    have htype : param.type ∈ params.map (·.type) := by
      rw [← hparams.types]
      exact List.mem_map_of_mem hparam
    rcases List.mem_map.mp htype with ⟨given, hgiven, hsame⟩
    rw [← hsame]
    exact hexact given hgiven
  · exact hbody.grows.functions_lt hlt₂
  · intro g hg hlt
    exact hbody.bodies g (by omega) hlt
  · rw [hbody.globals, List.append_nil]
    exact hparams.globals

theorem leaves_funDecl : Leaves (Lexical.funDecl inner place) q (ReadsStmt place q) := by
  apply leaves_read (givesAny_expect _)
  intro word _
  apply leaves_read (givesAny_expect _)
  intro name _
  apply leaves_read gives_parameters
  intro params hexact
  apply leaves_read (givesAny_accept _)
  intro hasResult _
  have hrest : forall result : ValueType,
      Leaves (do
        let b ← Lexical.declareFunction place name.text result
          (some (Parse.pendingBody word.pos)) (some name.pos)
        let body ← Lexical.functionBody inner (place.behind b) b.id params
        Lexical.changeProgram (·.setBody b.id body)
        return (.funDecl word.pos b.id, some b)) q (ReadsStmt place q) := by
    intro result
    apply (leaves_declareFunction h name.text result (by rintro _ ⟨⟩; rfl) _).bind
    rintro b q₁ ⟨hb, hentry⟩
    have hlength : q₁.functions.length = b.id + 1 := (hb.entries .function).trans (hb.id ▸ rfl)
    apply (leaves_functionBody hinner (hb.ready h) hlength (by rw [hentry]) hexact).bind
    intro body p hbody
    have hpending : p.mentionsOf b.id = [] := by
      rcases hbody.entry with ⟨params, slots, hslots⟩
      rw [Program.mentionsOf, Program.bodyOf, hslots, hentry]
      rfl
    have hfits : b.Fits (p.setBody b.id body) place.owners := by
      rcases hbody.entry with ⟨params, slots, hslots⟩
      have hname := hb.fits.name
      rw [hb.category] at hname
      apply Binding.fits_function hb.category
      · exact Nat.lt_of_lt_of_eq hbody.lt (p.entries_setBody b.id body .function).symm
      · rw [Program.function_setBody hbody.lt, if_pos rfl, hslots]
        exact hname
      · rw [Program.function_setBody hbody.lt, if_pos rfl, hslots]
        exact (hb.fits.function hb.category).2
    have hold : q.functions.length ≤ b.id := Nat.le_of_eq hb.id.symm
    have hgrows : q.Grows (p.setBody b.id body) :=
      (hbody.kept q hb.grows hold).setFunction hold _
    have houtermost := hb.visible hb.category
    have hnesting : Program.Nesting q [.declareFunction b.id] (p.setBody b.id body) := by
      apply Program.Nesting.setBody hbody.lt body hpending hbody.nesting hb.nested houtermost hlength
      · exact fun g hgt hlt => (hbody.bodies g hgt hlt).enclosed
      · exact hgrows.extends
      · exact hold
    have hnumbers : (p.setBody b.id body).Numbers q.functions.length [.declareFunction b.id]
        (p.setBody b.id body).functions.length := by
      have hinner : (p.setBody b.id body).Numbers (b.id + 1) (Stmt.listMentions body.body)
          p.functions.length :=
        hbody.numbers.of_same fun g hg _ =>
          Program.mentionsOf_setBody_ne hbody.lt body (Nat.ne_of_gt hg)
      have hid : b.id = q.functions.length := hb.id
      have hlength : (p.setBody b.id body).functions.length = p.functions.length :=
        p.entries_setBody b.id body .function
      rw [← Program.mentionsOf_setBody_self hbody.lt body] at hinner
      rw [← hid, hlength]
      exact .declare hinner .nil
    apply leaves_changeProgram
    refine leaves_pure ⟨⟨?_, hgrows, ?_, ?_, hnesting, hnumbers, ?_⟩, ?_, ?_, by simp⟩
    · exact hbody.tables.setBody hbody.lt body
    · refine Program.allFit_cons.mpr ⟨?_, Program.allFit_nil⟩
      exact Nat.lt_of_lt_of_eq hbody.lt (p.entries_setBody b.id body .function).symm
    · intro g hold hnew
      by_cases hg : g = b.id
      · subst hg
        exact Program.bodyFits_setBody_self hbody.lt body hbody.exactParams hbody.mentions
      · have hlt : g < p.functions.length :=
          Nat.lt_of_lt_of_eq hnew (p.entries_setBody b.id body .function)
        have hgt : b.id < g := by
          have hid : b.id = q.functions.length := hb.id
          omega
        exact (hbody.bodies g hgt hlt).setBody hbody.lt body hg hpending
    · exact hbody.globals.trans hb.globals
    · rintro _ ⟨⟩
      refine ⟨hfits, hb.fresh, hb.category ▸ hb.id, ?_⟩
      rw [Binding.global, hb.category]
      rfl
    · rintro _ ⟨⟩ _
      exact (hnesting.declared List.mem_cons_self).2
  apply Leaves.ite
  · intro _
    exact leaves_read gives_expectType fun result _ => hrest result
  · intro _
    exact hrest .none

theorem leaves_statementOf :
    Leaves (Lexical.statementOf inner place) q (ReadsStmt place q) := by
  apply leaves_read givesAny_currentKind
  intro kind _
  cases kind
  case constWord => exact leaves_constDecl h
  case varWord => exact leaves_varDecl h
  case funWord => exact leaves_funDecl hinner h
  case openBrace => exact leaves_plain (leaves_blockStmt hinner h)
  case ifWord =>
    exact leaves_plain (leaves_guarded hinner h (fun _ _ _ => rfl) fun _ _ _ => rfl)
  case whileWord =>
    exact leaves_plain (leaves_guarded hinner h (fun _ _ _ => rfl) fun _ _ _ => rfl)
  case returnWord => exact leaves_namesOnly h (gives_returnStmt h.admits)
  case asyncWord => exact leaves_asyncStmt h
  case awaitWord => exact leaves_namesOnly h (gives_awaitStmt h.admits)
  case name => exact leaves_namesOnly h (gives_nameStmt h.admits)
  all_goals exact leaves_failExpected _

end Nested

theorem leaves_statementWithin (depth : Nat) {place : Place} {q : Program}
    (h : place.Ready q) : Leaves (Lexical.statementWithin depth place) q (ReadsStmt place q) := by
  induction depth generalizing place q with
  | zero => exact leaves_failExpected _
  | succ depth ih => exact leaves_statementOf (fun _ _ h => ih h) h

theorem leaves_statement {place : Place} {q : Program} (h : place.Ready q) :
    Leaves (Lexical.statement place) q (ReadsStmt place q) :=
  leaves_read givesAny_tokensLeft fun depth _ => leaves_statementWithin depth h

end Scriptlet
