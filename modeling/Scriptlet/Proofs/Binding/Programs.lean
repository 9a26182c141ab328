import Mathlib.Data.List.Forall2
import Scriptlet.Proofs.Binding.Agreement
import Scriptlet.Proofs.Binding.Statements

/-!
# Programs are well formed

The names from outside and the statements of the outermost level are read one behind
the other.  What they declare is listed among the globals, in their order and each
name once.
-/

namespace Scriptlet

structure Place.Outermost (place : Place) (p : Program) : Prop where
  ready : place.Ready p
  around : place.around = []
  owners : place.owners = []
  globals : p.globals = place.here.map (·.global)
  names : (place.here.map (·.name)).Nodup

theorem Binding.Fits.hasGlobal {p : Program} {b : Binding} (hb : b.Fits p []) :
    p.hasGlobal b.global := by
  unfold Binding.global
  cases hcategory : b.category with
  | const => exact hb.const hcategory
  | var =>
      have hvar := hb.var hcategory
      refine ⟨hvar.1, ?_⟩
      cases howner : (p.variableAt b.id).owner with
      | none => rfl
      | some f => exact absurd (hvar.2 f howner) List.not_mem_nil
  | function => exact (hb.function hcategory).1

theorem Program.hasGlobal.ne_of_id {p : Program} {b : Binding} {g : Global} (hg : p.hasGlobal g)
    (hid : b.id = p.entries b.category) : b.global ≠ g := by
  rintro rfl
  unfold Binding.global at hg
  cases hcategory : b.category with
  | const =>
      rw [hcategory] at hg hid
      exact absurd hid (Nat.ne_of_lt hg)
  | var =>
      rw [hcategory] at hg hid
      exact absurd hid (Nat.ne_of_lt hg.1)
  | function =>
      rw [hcategory] at hg hid
      exact absurd hid (Nat.ne_of_lt hg)

namespace Place.Outermost

variable {place : Place} {q p : Program}

theorem fits (h : place.Outermost p) {b : Binding} (hb : b ∈ place.here) : b.Fits p [] :=
  h.owners ▸ h.ready.bindings place.here List.mem_cons_self b hb

theorem hasGlobal (h : place.Outermost p) {g : Global} (hg : g ∈ p.globals) : p.hasGlobal g := by
  rw [h.globals] at hg
  rcases List.mem_map.mp hg with ⟨b, hb, rfl⟩
  exact (h.fits hb).hasGlobal

theorem nodup (h : place.Outermost p) : (p.globals.map p.globalName).Nodup := by
  have hnames : p.globals.map p.globalName = place.here.map (·.name) := by
    rw [h.globals, List.map_map]
    exact List.map_congr_left fun b hb => (h.fits hb).name
  rw [hnames]
  exact h.names

theorem behind (h : place.Outermost q) {b : Binding} (hready : (place.behind b).Ready p)
    (hfresh : place.isDeclaredHere b.name = false)
    (hglobals : p.globals = q.globals ++ place.listed (some b)) :
    (place.behind b).Outermost p where
  ready := hready
  around := h.around
  owners := h.owners
  globals := by
    have hlisted : place.listed (some b) = [b.global] := if_pos (by simp [h.around])
    rw [hglobals, hlisted, h.globals]
    simp [Place.behind]
  names := by
    have hnew : forall b', b' ∈ place.here -> b'.name ≠ b.name := by
      simpa [Place.isDeclaredHere] using hfresh
    show ((place.here ++ [b]).map (·.name)).Nodup
    rw [List.map_append, List.nodup_append]
    refine ⟨h.names, by simp, ?_⟩
    intro name hname name' hname'
    rcases List.mem_map.mp hname with ⟨b', hb', rfl⟩
    rw [List.map_singleton, List.mem_singleton] at hname'
    rw [hname']
    exact hnew b' hb'

theorem after (h : place.Outermost q) {answer : Stmt × Option Binding}
    (hstmt : ReadsStmt place q answer p) :
    (place.after answer.2).Outermost p ∧
      p.globals = q.globals ++ answer.1.global?.toList.filter (· ∉ q.globals) := by
  have hready := hstmt.ready h.ready
  have hglobals := hstmt.progress.globals
  cases hdeclared : answer.2 with
  | some b =>
      rw [hdeclared] at hready hglobals
      rcases hstmt.declared b hdeclared with ⟨-, hfresh, hid, hglobal⟩
      refine ⟨h.behind hready hfresh hglobals, ?_⟩
      have hnew : b.global ∉ q.globals := fun hmem => (h.hasGlobal hmem).ne_of_id hid rfl
      have hlisted : place.listed (some b) = [b.global] := if_pos (by simp [h.around])
      rw [hglobals, hlisted, hglobal]
      simp [hnew]
  | none =>
      rw [hdeclared] at hready hglobals
      have hsame : p.globals = q.globals := hglobals.trans (List.append_nil _)
      refine ⟨⟨hready, h.around, h.owners, hsame.trans h.globals, h.names⟩, ?_⟩
      have hknown : answer.1.global?.toList.filter (· ∉ q.globals) = [] := by
        cases hglobal : answer.1.global? with
        | none => rfl
        | some g =>
            rcases hstmt.known hdeclared g hglobal with ⟨name, b, hfind, rfl⟩
            have hb : b ∈ place.here := by
              rcases List.exists_of_findSome?_eq_some hfind with ⟨scope, hscope, hb⟩
              rw [Place.scopes, h.around, List.mem_singleton] at hscope
              exact hscope ▸ List.mem_of_find?_eq_some hb
            have hmem : b.global ∈ q.globals := by
              rw [h.globals]
              exact List.mem_map_of_mem hb
            simp [hmem]
      rw [hsame, hknown, List.append_nil]

end Place.Outermost

/-!
# Statements of the outermost level
-/

structure ReadsRoot (q : Program) (root : List Stmt) (p : Program) : Prop where
  progress : exists listed, Progress [] q (Stmt.listMentions root) listed p
  globals : p.globals = listGlobals q.globals root
  outermost : exists place : Place, place.Outermost p

theorem Place.Outermost.readsRoot {place : Place} {q : Program} (h : place.Outermost q) :
    ReadsRoot q [] q where
  progress := by
    refine ⟨[], ?_⟩
    rw [← h.owners]
    exact .unchanged h.ready admitted_nil
  globals := rfl
  outermost := ⟨place, h⟩

theorem leaves_topLevelWithin (limit : Nat) {place : Place} {q : Program}
    (h : place.Outermost q) :
    Leaves (Lexical.topLevelWithin limit place) q (ReadsRoot q) := by
  induction limit generalizing place q with
  | zero => exact leaves_pure h.readsRoot
  | succ limit ih =>
      apply leaves_read givesAny_current
      intro token _
      apply Leaves.ite
      · intro _
        exact leaves_pure h.readsRoot
      · intro _
        apply Leaves.ite
        · intro _
          apply (leaves_statement h.ready).bind
          rintro ⟨stmt, declared⟩ p hstmt
          rcases h.after hstmt with ⟨hafter, hglobals⟩
          apply (ih hafter).bind
          rintro rest r ⟨⟨listed, hprogress⟩, hrest, houtermost⟩
          have hstmt' := hstmt.progress
          rw [h.owners] at hstmt'
          refine leaves_pure ⟨⟨_, hstmt'.append hprogress⟩, ?_, houtermost⟩
          rw [hrest, hglobals]
          rfl
        · intro _
          apply leaves_read givesAny_advance
          intro _ _
          rintro t rfl
          exact ih h _ rfl

/-!
# Names from outside
-/

section Externs

variable {body : Type}

def Variable.IsGiven (v : Variable) (name : String) (type : ValueType)
    (default : Option Value) : Prop :=
  v.name = name ∧ v.type = type ∧ v.default = default

def Function.IsGiven (f : Function) (name : String) (params : Option (List (String × ValueType)))
    (result : ValueType) : Prop :=
  f.name = name ∧ f.result = result ∧ f.isNative = true ∧
    f.params.map (·.type) = (params.getD []).map (·.2)

def Program.Provides (p : Program) : Global -> Extern body -> Prop
  | .const id, .const name type value =>
      p.constant id = { name := name, type := type, value := value }
  | .var id, .var name type default => (p.variableAt id).IsGiven name type default
  | .function f, .function name params result _ => (p.function f).IsGiven name params result
  | _, _ => False

/-- The globals are the names from outside and then the declarations of the outermost
level, in their order. -/
def Program.ListsGlobals (p : Program) (externs : List (Extern body)) : Prop :=
  exists given, List.Forall₂ p.Provides given externs ∧ p.globals = listGlobals given p.root

theorem Program.Grows.provides {q p : Program} (h : q.Grows p) {g : Global} {entry : Extern body}
    (hg : q.hasGlobal g) (hentry : q.Provides g entry) : p.Provides g entry := by
  cases entry with
  | const name type value =>
      cases g with
      | const id => exact (h.constant hg).trans hentry
      | var id => exact hentry
      | function f => exact hentry
  | var name type default =>
      cases g with
      | const id => exact hentry
      | var id =>
          show (p.variableAt id).IsGiven name type default
          rw [h.variableAt hg.1]
          exact hentry
      | function f => exact hentry
  | function name params result body =>
      cases g with
      | const id => exact hentry
      | var id => exact hentry
      | function f =>
          rcases h.kept f hg with ⟨slots, hslots⟩
          show (p.function f).IsGiven name params result
          rw [hslots]
          exact hentry

theorem valueFault?_eq_none {name : String} {type : ValueType} {value : Value}
    (h : Parse.valueFault? name type value = none) : value.type = type := by
  by_cases htype : value.type = type
  · exact htype
  · simp [Parse.valueFault?, htype] at h

theorem externFault?_regular {entry : Extern body} {cause : ParseCause}
    (h : Parse.externFault? entry = some cause) (name : String) :
    cause ≠ .inconsistentFunction name := by
  rintro rfl
  cases entry with
  | const name' type value =>
      simp only [Parse.externFault?, Parse.valueFault?] at h
      split at h
      · cases h
      · split at h <;> cases h
  | var name' type default =>
      simp only [Parse.externFault?] at h
      split at h
      · cases h
      · cases default with
        | none => cases h
        | some value =>
            rw [Option.bind_some, Parse.valueFault?] at h
            split at h <;> cases h
  | function name' params result body =>
      simp only [Parse.externFault?] at h
      split at h
      · cases h
      · rcases Option.map_eq_some_iff.mp h with ⟨_, _, hcause⟩
        cases hcause

structure Injects (place : Place) (q : Program) (entry : Extern body) (b : Binding) (p : Program) :
    Prop where
  outermost : (place.behind b).Outermost p
  grows : q.Grows p
  provides : p.Provides b.global entry
  globals : p.globals = q.globals ++ [b.global]
  native : forall f, q.functions.length ≤ f -> f < p.functions.length ->
    (p.function f).isNative = true

theorem only_new {q p : Program} {f g : Nat} (hf : f = q.functions.length)
    (hlength : p.functions.length = f + 1) (hold : q.functions.length ≤ g)
    (hnew : g < p.functions.length) : g = f := by
  omega

theorem leaves_injectParams {place : Place} {q : Program} {f : Nat} (h : place.Ready q)
    (hf : q.functions.length = f + 1) (hslots : (q.function f).localCount = 0)
    (params : List (String × ValueType)) :
    Leaves (Lexical.injectParams place f params) q fun _ p =>
      exists bound : List Param, place.Ready p ∧
        (forall older : Program, older.Grows q -> older.functions.length ≤ f -> older.Grows p) ∧
        (exists slots, p.function f = { q.function f with params := bound, localCount := slots }) ∧
        bound.map (·.type) = params.map (·.2) ∧ p.functions.length = f + 1 ∧
        p.globals = q.globals := by
  have hlt : f < q.functions.length := by omega
  have hbound : Leaves (Lexical.givenParams place f params) q fun bound p =>
      exists inside, DeclaresParams (place.inFunction f) q (params.map (·.2)) bound inside p := by
    apply leaves_freshScope
    intro scope
    apply (leaves_declareParams (Parse.givenParameters params) (h.inFunction hlt)
      (List.cons_ne_nil _ _)).bind
    rintro ⟨bound, inside⟩ p hparams
    rw [Parse.givenParameters, List.map_map] at hparams
    exact leaves_pure ⟨inside, hparams⟩
  apply hbound.bind
  rintro bound q₁ ⟨inside, hparams⟩
  have hlt₁ : f < q₁.functions.length := hparams.grows.functions_lt hlt
  rintro t rfl
  refine ⟨bound, ?_, ?_, ?_, hparams.types, ?_, hparams.globals⟩
  · have hready := h.grow hparams.grows hparams.ready.tables hparams.ready.nested
    exact hready.setParams (hparams.tables hlt hslots) hlt₁
  · intro older holder hold
    exact (holder.trans hparams.grows).setFunction hold _
  · rcases hparams.grows.kept f hlt with ⟨slots, hslots⟩
    refine ⟨slots, ?_⟩
    show (t.program.setFunction f _).function f = _
    rw [Program.function_setFunction _ hlt₁, if_pos rfl, hslots]
  · exact (t.program.entries_setParams f bound .function).trans (hparams.functions.trans hf)

variable {place : Place} {q : Program} (h : place.Outermost q)

include h

theorem Place.Outermost.injects {p : Program} {kind : Category} {b : Binding}
    {entry : Extern body} (hb : Declares place q kind b p) (hprovides : p.Provides b.global entry)
    (hnative : forall f, q.functions.length ≤ f -> f < p.functions.length ->
      (p.function f).isNative = true) : Injects place q entry b p where
  outermost := h.behind (hb.ready h.ready) hb.fresh hb.globals
  grows := hb.grows
  provides := hprovides
  globals := by
    have hlisted : place.listed (some b) = [b.global] := if_pos (by simp [h.around])
    rw [hb.globals, hlisted]
  native := hnative

theorem leaves_declareExtern (entry : Extern body) (hentry : Parse.externFault? entry = none) :
    Leaves (Lexical.declareExtern place entry) q (Injects place q entry) := by
  cases entry with
  | const name type value =>
      have hvalue : value.type = type := by
        simp only [Parse.externFault?] at hentry
        split at hentry
        · cases hentry
        · exact valueFault?_eq_none hentry
      apply (leaves_declareConst h.ready name hvalue none).mono
      rintro b p ⟨hb, hconstant⟩
      apply h.injects hb
      · rw [Binding.global, hb.category]
        exact hconstant
      · intro f hold hnew
        rw [hb.functions (by decide)] at hnew
        exact absurd hnew (Nat.not_lt.mpr hold)
  | var name type default =>
      have hdefault : forall value, default = some value -> value.type = type := by
        rintro value rfl
        simp only [Parse.externFault?] at hentry
        split at hentry
        · cases hentry
        · exact valueFault?_eq_none hentry
      apply (leaves_declareVar h.ready name hdefault none).mono
      rintro b p ⟨hb, hvar, -⟩
      apply h.injects hb
      · rw [Binding.global, hb.category]
        show (p.variableAt b.id).IsGiven name type default
        rw [hvar]
        exact ⟨rfl, rfl, rfl⟩
      · intro f hold hnew
        rw [hb.functions (by decide)] at hnew
        exact absurd hnew (Nat.not_lt.mpr hold)
  | function name params result _ =>
      have hpending : forall block, (none : Option Block) = some block -> block.body = [] := by simp
      apply (leaves_declareFunction h.ready name result hpending none).bind
      rintro b q₁ ⟨hb, hfunction⟩
      have hlength : q₁.functions.length = b.id + 1 :=
        (hb.entries .function).trans (hb.id ▸ rfl)
      cases params with
      | none =>
          refine leaves_pure (h.injects hb ?_ ?_)
          · rw [Binding.global, hb.category]
            show (q₁.function b.id).IsGiven name none result
            rw [hfunction]
            exact ⟨rfl, rfl, rfl, rfl⟩
          · intro f hold hnew
            rw [only_new hb.id hlength hold hnew, hfunction]
            rfl
      | some params =>
          apply (leaves_injectParams (hb.ready h.ready) hlength (by rw [hfunction]) params).bind
          rintro _ p ⟨bound, hready, hkept, hentry, htypes, hlength', hglobals⟩
          have hold : q.functions.length ≤ b.id := Nat.le_of_eq hb.id.symm
          have hlisted : place.listed (some b) = [b.global] := if_pos (by simp [h.around])
          refine leaves_pure ⟨h.behind hready hb.fresh (hglobals.trans hb.globals),
            hkept q hb.grows hold, ?_, ?_, ?_⟩
          · rw [Binding.global, hb.category]
            show (p.function b.id).IsGiven name (some params) result
            rcases hentry with ⟨slots, hslots⟩
            rw [hslots, hfunction]
            exact ⟨rfl, rfl, rfl, htypes⟩
          · rw [hglobals, hb.globals, hlisted]
          · intro f hold hnew
            rcases hentry with ⟨slots, hslots⟩
            rw [only_new hb.id hlength' hold hnew, hslots, hfunction]
            rfl

theorem leaves_inject (entry : Extern body) :
    Leaves (Lexical.inject place entry) q (Injects place q entry) := by
  unfold Lexical.inject
  cases hfault : Parse.externFault? entry with
  | some cause => exact leaves_fail none (externFault?_regular hfault)
  | none => exact leaves_declareExtern h entry hfault

structure InjectsAll (q : Program) (externs : List (Extern body)) (place : Place) (p : Program) :
    Prop where
  outermost : place.Outermost p
  grows : q.Grows p
  given : exists given, List.Forall₂ p.Provides given externs ∧ p.globals = q.globals ++ given
  native : forall f, q.functions.length ≤ f -> f < p.functions.length ->
    (p.function f).isNative = true

theorem leaves_injectAll (externs : List (Extern body)) :
    Leaves (Lexical.injectAll externs place) q (InjectsAll q externs) := by
  induction externs generalizing place q with
  | nil =>
      refine leaves_pure ⟨h, .refl q, ⟨[], .nil, (List.append_nil _).symm⟩, ?_⟩
      intro f hold hnew
      exact absurd hnew (Nat.not_lt.mpr hold)
  | cons entry rest ih =>
      apply (leaves_inject h entry).bind
      intro b p hb
      apply (ih hb.outermost).mono
      rintro inside r ⟨houtermost, hgrows, ⟨given, hgiven, hglobals⟩, hnative⟩
      have hb_global : p.hasGlobal b.global := hb.outermost.hasGlobal (by simp [hb.globals])
      refine ⟨houtermost, hb.grows.trans hgrows,
        ⟨b.global :: given, .cons (hgrows.provides hb_global hb.provides) hgiven, ?_⟩, ?_⟩
      · rw [hglobals, hb.globals, List.append_assoc]
        rfl
      · intro f hold hnew
        by_cases hf : f < p.functions.length
        · rw [Function.isNative, hgrows.body hf]
          exact hb.native f hold hf
        · exact hnative f (Nat.le_of_not_lt hf) hnew

end Externs

/-!
# Whole programs
-/

theorem Program.grows_root (p : Program) (root : List Stmt) : p.Grows { p with root := root } :=
  { Program.Grows.refl p with kept := fun f _ => ⟨(p.function f).localCount, rfl⟩ }

section Whole

variable {body : Type}

theorem Place.outermost_empty : Place.outermost.Outermost .empty where
  ready :=
    { tables := Program.tables_empty
      bindings := by simp [Place.outermost, Place.scopes]
      owners := by simp [Place.outermost]
      nested := Program.nested_of_no_bodies fun _ => rfl
      visible := by simp [Place.outermost, Place.scopes] }
  around := rfl
  owners := rfl
  globals := rfl
  names := .nil

theorem leaves_wholeProgram (externs : List (Extern body)) :
    Leaves (Lexical.wholeProgram externs) .empty fun root p =>
      exists place q, InjectsAll .empty externs place q ∧ ReadsRoot q root p := by
  apply (leaves_injectAll Place.outermost_empty externs).bind
  intro place q hexterns
  apply leaves_read givesAny_tokensLeft
  intro limit _
  apply (leaves_topLevelWithin limit hexterns.outermost).mono
  intro root p hroot
  exact ⟨place, q, hexterns, hroot⟩

variable {externs : List (Extern body)} {place : Place} {q p : Program} {root : List Stmt}
  (hexterns : InjectsAll .empty externs place q) (hroot : ReadsRoot q root p)

include hexterns hroot

theorem wellFormed_of_reads : Program.WellFormed { p with root := root } := by
  rcases hroot with ⟨⟨listed, hprogress⟩, -, ⟨inside, hinside⟩⟩
  have hgrows := p.grows_root root
  have htables := hprogress.tables
  refine ⟨⟨?_, htables.owned, htables.params, htables.constants, htables.defaults⟩,
    hgrows.allFit hprogress.mentions, ?_, ?_, hinside.nodup⟩
  · intro owner
    cases owner with
    | none => exact htables.slots none
    | some f => exact htables.slots (some f)
  · intro f hf
    by_cases hold : f < q.functions.length
    · refine .inl ?_
      show (p.function f).isNative = true
      rw [Function.isNative, hprogress.grows.body hold]
      exact hexterns.native f (Nat.zero_le f) hold
    · exact (hprogress.bodies f (Nat.le_of_not_lt hold) hf).grow hf hgrows (List.Subset.refl _)
  · intro g hg
    have hglobal := hinside.hasGlobal hg
    cases g with
    | const id => exact hglobal
    | var id => exact hglobal
    | function f => exact hglobal

omit hexterns in
theorem wellNested_of_reads : Program.WellNested { p with root := root } := by
  rcases hroot with ⟨⟨listed, hprogress⟩, -, ⟨inside, hinside⟩⟩
  have hnesting := hprogress.nesting
  have hlength : p.functions.length ≤ ({ p with root := root } : Program).functions.length :=
    Nat.le_refl _
  have hsame : forall f, p.Outermost f -> ({ p with root := root } : Program).Outermost f :=
    fun f hf => hf.of_same hlength fun _ => rfl
  refine ⟨hnesting.nested.of_same hlength fun _ => rfl, hnesting.once, ?_, ?_, ?_⟩
  · exact fun hf => hsame _ (hnesting.declared hf).2
  · exact fun hm hcallee => hsame _ (hnesting.calls hm hcallee)
  · intro f hf
    apply hsame
    change .function f ∈ p.globals at hf
    rw [hinside.globals] at hf
    rcases List.mem_map.mp hf with ⟨b, hb, hglobal⟩
    cases hcategory : b.category with
    | const =>
        rw [Binding.global, hcategory] at hglobal
        cases hglobal
    | var =>
        rw [Binding.global, hcategory] at hglobal
        cases hglobal
    | function =>
        rw [Binding.global, hcategory] at hglobal
        cases hglobal
        exact hinside.ready.visible inside.here List.mem_cons_self b hb hcategory

theorem numbered_of_reads : exists n, Program.Numbered { p with root := root } n := by
  rcases hroot.progress with ⟨listed, hprogress⟩
  refine ⟨q.functions.length, ?_, hprogress.numbers.of_same fun _ _ _ => rfl⟩
  intro f hf
  show (p.function f).isNative = true
  rw [Function.isNative, hprogress.grows.body hf]
  exact hexterns.native f (Nat.zero_le f) hf

theorem listsGlobals_of_reads : Program.ListsGlobals { p with root := root } externs := by
  rcases hexterns.given with ⟨given, hgiven, hglobals⟩
  have hgiven_global : forall g, g ∈ given -> q.hasGlobal g := by
    intro g hg
    apply hexterns.outermost.hasGlobal
    rw [hglobals]
    exact List.mem_append_right _ hg
  rcases hroot.progress with ⟨listed, hprogress⟩
  have hgrows := hprogress.grows.trans (p.grows_root root)
  refine ⟨given, ?_, ?_⟩
  · have hboth := (List.forall₂_and_left given externs).mpr ⟨hgiven_global, hgiven⟩
    exact hboth.imp fun g entry hg => hgrows.provides hg.1 hg.2
  · have hroot_globals := hroot.globals
    rw [hglobals] at hroot_globals
    exact hroot_globals

end Whole

/-- What every reading of a whole program leads to, the parser leads to. -/
theorem ends_parse {body : Type} (externs : List (Extern body)) (tokens : List Token)
    (post : Program -> Prop)
    (hpost : forall place q p root, InjectsAll .empty externs place q -> ReadsRoot q root p ->
      post { p with root := root }) :
    Ends (fun e => forall name, e.cause ≠ .inconsistentFunction name)
      (fun parsed => post parsed.program) (parse externs tokens) := by
  have hleaves := leaves_wholeProgram externs (Lexical.start tokens) rfl
  have hagree := agree_wholeProgram externs tokens
  unfold Ensures at hleaves
  unfold parse StateT.run
  generalize Lexical.wholeProgram externs (Lexical.start tokens) = r' at hleaves hagree
  generalize Parse.wholeProgram externs (.ofTokens tokens) = r at hagree ⊢
  cases hagree with
  | failed e => exact hleaves
  | done hsame =>
      rcases hsame with ⟨rfl, hprogram, -⟩
      rcases hleaves with ⟨place, q, hexterns, hroot⟩
      rw [← hprogram] at hroot
      exact hpost place q _ _ hexterns hroot

theorem wellFormed_of_parse {body : Type} {externs : List (Extern body)} {tokens : List Token}
    {parsed : Parsed} (h : parse externs tokens = .ok parsed) : parsed.program.WellFormed := by
  have hends : Ends _ (fun parsed => parsed.program.WellFormed) (parse externs tokens) :=
    ends_parse externs tokens Program.WellFormed fun _ _ _ _ hexterns hroot =>
      wellFormed_of_reads hexterns hroot
  rw [h] at hends
  exact hends

theorem wellNested_of_parse {body : Type} {externs : List (Extern body)} {tokens : List Token}
    {parsed : Parsed} (h : parse externs tokens = .ok parsed) : parsed.program.WellNested := by
  have hends : Ends _ (fun parsed => parsed.program.WellNested) (parse externs tokens) :=
    ends_parse externs tokens Program.WellNested fun _ _ _ _ _ hroot =>
      wellNested_of_reads hroot
  rw [h] at hends
  exact hends

theorem numbered_of_parse {body : Type} {externs : List (Extern body)} {tokens : List Token}
    {parsed : Parsed} (h : parse externs tokens = .ok parsed) :
    exists n, parsed.program.Numbered n := by
  have hends : Ends _ (fun parsed => exists n, Program.Numbered parsed.program n)
      (parse externs tokens) :=
    ends_parse externs tokens (fun p => exists n, p.Numbered n) fun _ _ _ _ hexterns hroot =>
      numbered_of_reads hexterns hroot
  rw [h] at hends
  exact hends

/-- A program that the parser accepts is well formed, and its globals are listed in the
order of their declaration.  An error of the parser is never that its own tables
contradict each other. -/
theorem parse_wellFormed {body : Type} (externs : List (Extern body)) (tokens : List Token) :
    Ends (fun e => forall name, e.cause ≠ .inconsistentFunction name)
      (fun parsed => parsed.program.WellFormed ∧ parsed.program.ListsGlobals externs)
      (parse externs tokens) := by
  apply ends_parse externs tokens fun p => p.WellFormed ∧ p.ListsGlobals externs
  intro place q p root hexterns hroot
  exact ⟨wellFormed_of_reads hexterns hroot, listsGlobals_of_reads hexterns hroot⟩

end Scriptlet
