import Mathlib
import Scriptlet.Linking
import Scriptlet.Proofs.Evaluation.Preservation
import Scriptlet.Proofs.Linking.Imports

/-!
# Exports are importable

What a module hands out after its run has no fault: constants and variables have values
of their types, functions have signatures that a program could declare, and no name comes
twice.  A parser takes all of it, and the program that consists of nothing else hands out
the same list again.
-/

namespace Scriptlet

/-!
# Values of globals
-/

def fillSlots (slots : List (Option Value)) (vars : List Variable) : List (Option Value) :=
  vars.foldl (fun slots v => slots.set v.slot v.default) slots

theorem getD_fillSlots_of_notMem {vars : List Variable} (slots : List (Option Value)) {n : Nat}
    (hn : n ∉ vars.map (·.slot)) : (fillSlots slots vars).getD n none = slots.getD n none := by
  induction vars generalizing slots with
  | nil => rfl
  | cons v rest ih =>
      rw [List.map_cons, List.mem_cons, not_or] at hn
      rw [fillSlots, List.foldl_cons, ← fillSlots, ih _ hn.2]
      simp [List.getD_eq_getElem?_getD, Ne.symm hn.1]

theorem getD_fillSlots {vars : List Variable} {slots : List (Option Value)}
    (hnodup : (vars.map (·.slot)).Nodup) {v : Variable} (hv : v ∈ vars)
    (hlt : v.slot < slots.length) : (fillSlots slots vars).getD v.slot none = v.default := by
  induction vars generalizing slots with
  | nil => cases hv
  | cons w rest ih =>
      rw [List.map_cons, List.nodup_cons] at hnodup
      rw [fillSlots, List.foldl_cons, ← fillSlots]
      rcases List.mem_cons.mp hv with rfl | hv
      · rw [getD_fillSlots_of_notMem _ hnodup.1]
        simp [List.getD_eq_getElem?_getD, hlt]
      · apply ih hnodup.2 hv
        rw [List.length_set]
        exact hlt

theorem Machine.globalValue_initial {σ : Type} {p : Program} (h : p.Tables) {id : VarId}
    (hid : id < p.vars.length) (howner : (p.variableAt id).owner = none) (host : σ) :
    (Machine.initial p host : Machine σ).globalValue p id = (p.variableAt id).default := by
  have hfilter : initialGlobals p =
      fillSlots (List.replicate p.globalCount none) (p.vars.filter (·.owner == none)) := by
    rw [fillSlots, List.foldl_filter, initialGlobals]
    congr 1
    funext slots v
    cases v.owner <;> rfl
  have hnodup : ((p.vars.filter (·.owner == none)).map (·.slot)).Nodup := by
    change (p.slotsOf none).Nodup
    rw [h.slots]
    exact List.nodup_range
  have hmem : p.variableAt id ∈ p.vars.filter (·.owner == none) := by
    rw [List.mem_filter]
    exact ⟨Program.variableAt_mem hid, by simp [howner]⟩
  have hlt : (p.variableAt id).slot < p.globalCount := by
    have hslot := h.slot_lt hid
    rw [howner] at hslot
    exact hslot
  rw [globalValue, howner]
  change (initialGlobals p).getD (p.variableAt id).slot none = _
  rw [hfilter]
  exact getD_fillSlots hnodup hmem (by rw [List.length_replicate]; exact hlt)

theorem Machine.Typed.globalValue {σ : Type} {p : Program} {m : Machine σ} (h : m.Typed p)
    (htables : p.Tables) {id : VarId} (hid : id < p.vars.length)
    (howner : (p.variableAt id).owner = none) {v : Value}
    (hv : m.globalValue p id = some v) : v.type = (p.variableAt id).type := by
  rw [Machine.globalValue, howner] at hv
  have hslot : m.globals[(p.variableAt id).slot]? = some (some v) := by
    change m.globals.getD (p.variableAt id).slot none = some v at hv
    rw [List.getD_eq_getElem?_getD] at hv
    cases hget : m.globals[(p.variableAt id).slot]? with
    | none =>
        rw [hget] at hv
        cases hv
    | some found =>
        rw [hget] at hv
        exact congrArg some hv
  obtain ⟨other, hother, htype⟩ := h.globals.typed _ _ hslot
  rw [htables.owns_unique ⟨hid, howner, rfl⟩ hother]
  exact htype

/-!
# Soundness
-/

theorem Program.constant_mem {p : Program} {id : ConstId} (hid : id < p.constants.length) :
    p.constant id ∈ p.constants := by
  rw [constant, List.getD_eq_getElem?_getD, List.getElem?_eq_getElem hid]
  exact List.getElem_mem hid

theorem Value.isValueless_type (v : Value) : Parse.isValueless v.type = false := by
  cases v <;> rfl

section Exports

variable {l : Loaded Linked} (hwell : l.program.WellFormed) (hsigned : l.program.Signed)

include hsigned in
theorem sound_exportFunction (fuel index : Nat) (f : FunId) :
    (Export.function l fuel index f).Sound := by
  obtain ⟨hresult, hapart⟩ := hsigned.function f
  have hgetD : forall params : List (String × ValueType),
      (if params.isEmpty then none else some params).getD [] = params := by
    intro params
    cases params <;> rfl
  constructor
  · simp only [Export.function, Parse.externFault?, if_neg hresult, hgetD]
    rw [Option.map_eq_none_iff, List.find?_eq_none]
    intro entry hentry
    obtain ⟨param, hparam, rfl⟩ := List.mem_map.mp hentry
    simpa using hapart.types param hparam
  · simp only [Extern.signature, Export.function, hgetD]
    exact hapart.names

include hwell hsigned

theorem sound_exportGlobal (fuel index : Nat) {m : Machine Linked} (hm : m.Typed l.program)
    {g : Global} (hg : l.program.hasGlobal g) : (Export.global l fuel index m g).Sound := by
  cases g with
  | const id =>
      have htype := hwell.tables.constants _ (Program.constant_mem hg)
      refine ⟨?_, .nil⟩
      simp only [Export.global, Parse.externFault?, ← htype, Value.isValueless_type]
      simp [Parse.valueFault?]
  | var id =>
      obtain ⟨hid, howner⟩ := hg
      refine ⟨?_, .nil⟩
      simp only [Export.global, Parse.externFault?,
        hsigned.globals _ (Program.variableAt_mem hid) howner]
      cases hvalue : m.globalValue l.program id with
      | none => rfl
      | some v =>
          have htype := hm.globalValue hwell.tables hid howner hvalue
          simp [Parse.valueFault?, htype]
  | function f => exact sound_exportFunction hsigned fuel index f

theorem sound_exports (fuel index : Nat) {m : Machine Linked} (hm : m.Typed l.program) :
    forall entry, entry ∈ Export.all l fuel index m -> entry.Sound := by
  intro entry hentry
  obtain ⟨g, hg, rfl⟩ := List.mem_map.mp hentry
  exact sound_exportGlobal hwell hsigned fuel index hm (hwell.globals g hg)

omit hsigned in
theorem nodup_exports (fuel index : Nat) (m : Machine Linked) :
    ((Export.all l fuel index m).map (·.name)).Nodup := by
  have hnames : (Export.all l fuel index m).map (·.name) =
      l.program.globals.map l.program.globalName := by
    rw [Export.all, List.map_map]
    refine List.map_congr_left fun g _ => ?_
    cases g <;> rfl
  rw [hnames]
  exact hwell.names

end Exports

/-!
# Exports of imports
-/

def Extern.Trim {body : Type} (entry : Extern body) : Prop :=
  forall name result given, entry ≠ .function name (some []) result given

theorem trim_exports (l : Loaded Linked) (fuel index : Nat) (m : Machine Linked) :
    forall entry, entry ∈ Export.all l fuel index m -> entry.Trim := by
  intro entry hentry name result given heq
  obtain ⟨g, -, rfl⟩ := List.mem_map.mp hentry
  cases g with
  | const id => cases heq
  | var id => cases heq
  | function f =>
      have hparams := (Extern.function.inj heq).2.1
      split at hparams
      · cases hparams
      · rename_i hne
        rw [Option.some.inj hparams] at hne
        exact hne rfl

theorem Binding.Presents.withRoot {body : Type} {p : Program} {externs : List (Extern body)}
    {b : Binding} {entry : Extern body} (h : b.Presents p externs entry) (root : List Stmt) :
    b.Presents { p with root := root } externs entry where
  category := h.category
  name := h.name
  type := h.type
  provides := by
    have hprovides := h.provides
    revert hprovides
    cases b.global <;> cases entry <;> exact fun hprovides => hprovides
  signature := h.signature
  body := h.body

theorem Binding.Presents.exported {p : Program} {externs : List (Extern (Native Linked))}
    {b : Binding} {entry : Extern (Native Linked)} (h : b.Presents p externs entry)
    (htables : p.Tables) (hb : p.hasGlobal b.global) (htrim : entry.Trim) (fuel index : Nat)
    (host : Linked) :
    Export.global { program := p, natives := Extern.bodies externs } fuel index
      (.initial p host) b.global = entry := by
  have hprovides := h.provides
  unfold Binding.global at hb hprovides ⊢
  rw [h.category] at hb hprovides ⊢
  cases entry with
  | const name type value =>
      have hconstant : p.constant b.id = { name := name, type := type, value := value } := hprovides
      simp only [Extern.category, Global.of, Export.global, hconstant]
  | var name type default =>
      have hgiven : (p.variableAt b.id).IsGiven name type default := hprovides
      obtain ⟨hname, htype, hdefault⟩ := hgiven
      have hvalue := Machine.globalValue_initial htables hb.1 hb.2 host
      simp only [Extern.category, Global.of, Export.global, hvalue, hname, htype, hdefault]
  | function name params result given =>
      have hgiven : (p.function b.id).IsGiven name params result := hprovides
      obtain ⟨hname, hresult, hnative, -⟩ := hgiven
      have hsignature : p.signature (p.function b.id).params = params.getD [] :=
        h.signature h.category
      have hbody := h.body given rfl
      have hparams :
          (if (params.getD []).isEmpty then none else some (params.getD [])) = params := by
        cases params with
        | none => rfl
        | some params =>
            cases params with
            | nil => exact absurd rfl (htrim name result given)
            | cons param rest => rfl
      unfold Program.signature at hsignature
      simp only [Extern.category, Global.of, Export.global, Export.function, hname, hresult,
        hnative, hsignature, hparams, Loaded.nativeBody, List.getD_eq_getElem?_getD, hbody, if_true,
        Option.getD_some]

theorem all_of_imported {externs : List (Extern (Native Linked))} {p : Program}
    {names : List Binding} (hpresents : List.Forall₂ (Binding.Presents p externs) names externs)
    (hglobals : p.globals = names.map (·.global)) (hwell : p.WellFormed)
    (htrim : forall entry, entry ∈ externs -> entry.Trim) (fuel index : Nat) (host : Linked) :
    Export.all { program := p, natives := Extern.bodies externs } fuel index (.initial p host) =
      externs := by
  have hnames : forall b, b ∈ names -> p.hasGlobal b.global := by
    intro b hb
    apply hwell.globals
    rw [hglobals]
    exact List.mem_map_of_mem hb
  have hboth := (List.forall₂_and_left names externs).mpr ⟨hnames, hpresents⟩
  have hall : List.Forall₂ (fun b entry => entry ∈ externs ∧ p.hasGlobal b.global ∧
      b.Presents p externs entry) names externs := by
    have hflip := (List.forall₂_and_left externs names).mpr ⟨fun _ h => h, hboth.flip⟩
    exact hflip.flip
  rw [Export.all, hglobals, List.map_map, ← List.forall₂_eq_eq_eq, List.forall₂_map_left_iff]
  refine hall.imp fun b entry h => ?_
  exact h.2.2.exported hwell.tables h.2.1 (htrim entry h.1) fuel index host

theorem exportModule_of_empty {l : Loaded Linked} (hroot : l.program.root = []) (fuel : Nat)
    (host : Linked) :
    exportModule l fuel host =
      .done
        { exports := Export.all l fuel host.instances.length (.initial l.program host)
          instances := Linked.instantiate (.initial l.program host) }
        (.initial l.program host) := by
  unfold exportModule Loaded.run
  rw [hroot]
  rfl

theorem exportModule_eq_done {l : Loaded Linked} {fuel : Nat} {host : Linked} {inst : Instantiated}
    {m : Machine Linked} (h : exportModule l fuel host = .done inst m) :
    (exists report, l.run fuel (.initial l.program host) = .done report m) ∧
      inst.exports = Export.all l fuel m.host.instances.length m ∧
      inst.instances = Linked.instantiate m := by
  unfold exportModule at h
  cases hrun : l.run fuel (.initial l.program host) with
  | done report m' =>
      simp only [hrun] at h
      cases h
      exact ⟨⟨report, rfl⟩, rfl, rfl⟩
  | failed e m' =>
      simp only [hrun] at h
      cases h
  | unfinished =>
      simp only [hrun] at h
      cases h

section Tally

/-- The text `const step: int = 3  var total: int = 0  var open: bool  fun next(by: int): int`
`{ total := total + by return total }  total := 1`. -/
def tallyTokens : List Token :=
  [(.constWord, "const"), (.name, "step"), (.colon, ":"), (.intType, "int"), (.equal, "="),
    (.intLit, "3"), (.varWord, "var"), (.name, "total"), (.colon, ":"), (.intType, "int"),
    (.equal, "="), (.intLit, "0"), (.varWord, "var"), (.name, "open"), (.colon, ":"),
    (.boolType, "bool"), (.funWord, "fun"), (.name, "next"), (.openParen, "("), (.name, "by"),
    (.colon, ":"), (.intType, "int"), (.closeParen, ")"), (.colon, ":"), (.intType, "int"),
    (.openBrace, "\x7b"), (.name, "total"), (.assign, ":="), (.name, "total"), (.plus, "+"),
    (.name, "by"), (.returnWord, "return"), (.name, "total"), (.closeBrace, "\x7d"),
    (.name, "total"), (.assign, ":="), (.intLit, "1")].map
      fun word => { pos := .endOfInput, kind := word.1, text := word.2 }

def tallyProgram : Program :=
  let total : Expr := .var .endOfInput 0
  let next : Function :=
    { name := "next", params := [{ var := 2, type := .int }], result := .int, localCount := 1
      body := some
        { head := { scope := 1, pos := .endOfInput }
          body := [.assign .endOfInput 0 (.binary .endOfInput .add total (.var .endOfInput 2)),
            .ret .endOfInput total] } }
  { root := [.constDecl .endOfInput 0,
      .varDecl .endOfInput 0 (some (.literal .endOfInput (.int 0))),
      .varDecl .endOfInput 1 none, .funDecl .endOfInput 0,
      .assign .endOfInput 0 (.literal .endOfInput (.int 1))]
    constants := [{ name := "step", type := .int, value := .int 3 }]
    vars := [{ name := "total", type := .int, owner := none, slot := 0, default := none },
      { name := "open", type := .bool, owner := none, slot := 1, default := none },
      { name := "by", type := .int, owner := some 0, slot := 0, default := none }]
    functions := [next]
    globalCount := 2
    globals := [.const 0, .var 0, .var 1, .function 0] }

theorem parse_tallyTokens :
    parse ([] : List (Extern Unit)) tallyTokens =
      .ok { program := tallyProgram, warnings := [] } := by
  cbv

def tallyLoaded : Loaded Linked :=
  { program := tallyProgram, natives := [] }

def tallyExports : List (Extern (Native Linked)) :=
  [.const "step" .int (.int 3), .var "total" .int (some (.int 1)), .var "open" .bool none,
    .function "next" (some [("by", .int)]) .int (Export.native tallyLoaded 1 0 0)]

theorem exports_tally : exists inst m,
    exportModule tallyLoaded 1 { own := default, instances := [] } = .done inst m ∧
      inst.exports = tallyExports :=
  ⟨_, _, rfl, rfl⟩

end Tally
end Scriptlet
