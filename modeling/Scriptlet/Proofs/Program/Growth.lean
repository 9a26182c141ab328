import Scriptlet.Program.Building

/-!
# Growing programs

While a program is read its tables only grow.  An entry keeps what was entered; only
a function that is still read gets more slots.
-/

namespace Scriptlet
namespace Program

structure Grows (q p : Program) : Prop where
  constants : q.constants <+: p.constants
  vars : q.vars <+: p.vars
  functions : q.functions.length ≤ p.functions.length
  kept : forall f, f < q.functions.length ->
    exists slots, p.function f = { q.function f with localCount := slots }

theorem Grows.refl (p : Program) : p.Grows p where
  constants := ⟨[], List.append_nil _⟩
  vars := ⟨[], List.append_nil _⟩
  functions := Nat.le_refl _
  kept := fun f _ => ⟨(p.function f).localCount, rfl⟩

theorem Grows.trans {p q r : Program} (hpq : p.Grows q) (hqr : q.Grows r) : p.Grows r where
  constants := hpq.constants.trans hqr.constants
  vars := hpq.vars.trans hqr.vars
  functions := Nat.le_trans hpq.functions hqr.functions
  kept := by
    intro f hf
    rcases hpq.kept f hf with ⟨n, hq⟩
    rcases hqr.kept f (Nat.lt_of_lt_of_le hf hpq.functions) with ⟨m, hr⟩
    exact ⟨m, by rw [hr, hq]⟩

section Kept

variable {q p : Program} (h : q.Grows p)

include h

theorem Grows.constant {id : ConstId} (hid : id < q.constants.length) :
    p.constant id = q.constant id := by
  rcases h.constants with ⟨rest, hrest⟩
  simp only [Program.constant, ← hrest, List.getD_eq_getElem?_getD, List.getElem?_append_left hid]

theorem Grows.variableAt {id : VarId} (hid : id < q.vars.length) :
    p.variableAt id = q.variableAt id := by
  rcases h.vars with ⟨rest, hrest⟩
  simp only [Program.variableAt, ← hrest, List.getD_eq_getElem?_getD, List.getElem?_append_left hid]

theorem Grows.constants_lt {id : ConstId} (hid : id < q.constants.length) :
    id < p.constants.length :=
  Nat.lt_of_lt_of_le hid h.constants.length_le

theorem Grows.vars_lt {id : VarId} (hid : id < q.vars.length) : id < p.vars.length :=
  Nat.lt_of_lt_of_le hid h.vars.length_le

theorem Grows.functions_lt {f : FunId} (hf : f < q.functions.length) :
    f < p.functions.length :=
  Nat.lt_of_lt_of_le hf h.functions

variable {f : FunId} (hf : f < q.functions.length)

include hf

theorem Grows.name : (p.function f).name = (q.function f).name := by
  rcases h.kept f hf with ⟨n, hn⟩
  rw [hn]

theorem Grows.params : (p.function f).params = (q.function f).params := by
  rcases h.kept f hf with ⟨n, hn⟩
  rw [hn]

theorem Grows.result : (p.function f).result = (q.function f).result := by
  rcases h.kept f hf with ⟨n, hn⟩
  rw [hn]

theorem Grows.body : (p.function f).body = (q.function f).body := by
  rcases h.kept f hf with ⟨n, hn⟩
  rw [hn]

end Kept

/-!
# The operations
-/

theorem function_setFunction (p : Program) {f : FunId} (hf : f < p.functions.length)
    (entry : Function) (g : FunId) :
    (p.setFunction f entry).function g = if g = f then entry else p.function g := by
  simp only [function, setFunction, List.getD_eq_getElem?_getD, List.getElem?_set]
  by_cases hg : g = f
  · subst hg
    simp [hf]
  · have hne : f ≠ g := fun heq => hg heq.symm
    simp [hg, hne]

theorem function_addFunction (p : Program) (name : String) (result : ValueType)
    (body : Option Block) (g : FunId) :
    (p.addFunction name result body).function g =
      if g = p.functions.length then
        { name := name, params := [], result := result, body := body, localCount := 0 }
      else p.function g := by
  simp only [function, addFunction, List.getD_eq_getElem?_getD]
  rcases Nat.lt_trichotomy g p.functions.length with hg | hg | hg
  · rw [List.getElem?_append_left hg, if_neg (Nat.ne_of_lt hg)]
  · subst hg
    simp
  · rw [if_neg (Nat.ne_of_gt hg), List.getElem?_eq_none (Nat.le_of_lt hg),
      List.getElem?_eq_none]
    simp
    omega

theorem constant_addConstant (p : Program) (c : Constant) :
    (p.addConstant c).constant p.constants.length = c := by
  simp [constant, addConstant]

theorem variableAt_addVar (p : Program) (owner : Option FunId) (name : String)
    (type : ValueType) (default : Option Value) (id : VarId) :
    (p.addVar owner name type default).variableAt id =
      if id = p.vars.length then
        { name := name, type := type, owner := owner, slot := p.slotCount owner,
          default := default }
      else p.variableAt id := by
  simp only [variableAt, addVar, List.getD_eq_getElem?_getD]
  rcases Nat.lt_trichotomy id p.vars.length with hid | hid | hid
  · rw [List.getElem?_append_left hid, if_neg (Nat.ne_of_lt hid)]
  · subst hid
    simp
  · rw [if_neg (Nat.ne_of_gt hid), List.getElem?_eq_none (Nat.le_of_lt hid),
      List.getElem?_eq_none]
    simp
    omega

def addGlobals (p : Program) (gs : List Global) : Program :=
  { p with globals := p.globals ++ gs }

theorem grows_addGlobals (p : Program) (gs : List Global) : p.Grows (p.addGlobals gs) :=
  { Grows.refl p with kept := fun f _ => ⟨(p.function f).localCount, rfl⟩ }

theorem grows_addConstant (p : Program) (c : Constant) : p.Grows (p.addConstant c) :=
  { Grows.refl p with
    constants := ⟨[c], rfl⟩
    kept := fun f _ => ⟨(p.function f).localCount, rfl⟩ }

theorem grows_addVar (p : Program) (owner : Option FunId) (name : String) (type : ValueType)
    (default : Option Value) : p.Grows (p.addVar owner name type default) where
  constants := by
    cases owner <;> exact ⟨[], List.append_nil _⟩
  vars := ⟨[_], rfl⟩
  functions := Nat.le_of_eq (entries_addVar p owner name type default .function).symm
  kept := by
    intro f hf
    cases owner with
    | none => exact ⟨(p.function f).localCount, rfl⟩
    | some g =>
        by_cases hg : g < p.functions.length
        · have hfunction : (p.addVar (some g) name type default).function f =
              if f = g then { p.function g with localCount := (p.function g).localCount + 1 }
              else p.function f :=
            function_setFunction p hg _ f
          rw [hfunction]
          by_cases hfg : f = g
          · subst hfg
            exact ⟨_, if_pos rfl⟩
          · exact ⟨(p.function f).localCount, if_neg hfg⟩
        · refine ⟨(p.function f).localCount, ?_⟩
          have hset : (p.addVar (some g) name type default).functions = p.functions :=
            List.set_eq_of_length_le (Nat.le_of_not_lt hg)
          rw [function, hset]
          rfl

theorem grows_addFunction (p : Program) (name : String) (result : ValueType)
    (body : Option Block) : p.Grows (p.addFunction name result body) where
  constants := ⟨[], List.append_nil _⟩
  vars := ⟨[], List.append_nil _⟩
  functions := by simp [addFunction]
  kept := by
    intro f hf
    refine ⟨(p.function f).localCount, ?_⟩
    rw [function_addFunction, if_neg (Nat.ne_of_lt hf)]

theorem Grows.setFunction {q p : Program} (h : q.Grows p) {f : FunId}
    (hf : q.functions.length ≤ f) (entry : Function) : q.Grows (p.setFunction f entry) where
  constants := h.constants
  vars := h.vars
  functions := by
    rw [Program.setFunction, List.length_set]
    exact h.functions
  kept := by
    intro g hg
    have hne : f ≠ g := Nat.ne_of_gt (Nat.lt_of_lt_of_le hg hf)
    have hsame : (p.setFunction f entry).function g = p.function g := by
      simp [Program.function, Program.setFunction, List.getD_eq_getElem?_getD, hne]
    rw [hsame]
    exact h.kept g hg

end Program
end Scriptlet
