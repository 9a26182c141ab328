import Scriptlet.Program.Tables
import Scriptlet.Scope

/-!
# Building programs

The tables of a program grow at their ends, one entry for each declaration.  A
function is entered before its parameters and its body are known.
-/

namespace Scriptlet

def Global.of (category : Category) (id : Nat) : Global :=
  match category with
  | .const => .const id
  | .var => .var id
  | .function => .function id

namespace Program

def entries (p : Program) : Category -> Nat
  | .const => p.constants.length
  | .var => p.vars.length
  | .function => p.functions.length

@[simp] theorem entries_setFunction (p : Program) (f : FunId) (entry : Function) (c : Category) :
    (p.setFunction f entry).entries c = p.entries c := by
  cases c with
  | const => rfl
  | var => rfl
  | function => exact List.length_set

/-- How many slots an owner has: the globals, or the frames of a function. -/
def slotCount (p : Program) : Option FunId -> Nat
  | none => p.globalCount
  | some f => (p.function f).localCount

def addSlot (p : Program) : Option FunId -> Program
  | none => { p with globalCount := p.globalCount + 1 }
  | some f => p.setFunction f { p.function f with localCount := (p.function f).localCount + 1 }

@[simp] theorem entries_addSlot (p : Program) (owner : Option FunId) (c : Category) :
    (p.addSlot owner).entries c = p.entries c := by
  cases owner with
  | none => cases c <;> rfl
  | some f => exact entries_setFunction p f _ c

def addGlobal (p : Program) (g : Global) : Program :=
  { p with globals := p.globals ++ [g] }

def addConstant (p : Program) (c : Constant) : Program :=
  { p with constants := p.constants ++ [c] }

theorem entries_addConstant (p : Program) (constant : Constant) (c : Category) :
    (p.addConstant constant).entries c = p.entries c + if .const = c then 1 else 0 := by
  cases c <;> simp [entries, addConstant]

def addVar (p : Program) (owner : Option FunId) (name : String) (type : ValueType)
    (default : Option Value) : Program :=
  let entry : Variable :=
    { name := name, type := type, owner := owner, slot := p.slotCount owner, default := default }
  { p.addSlot owner with vars := p.vars ++ [entry] }

theorem entries_addVar (p : Program) (owner : Option FunId) (name : String) (type : ValueType)
    (default : Option Value) (c : Category) :
    (p.addVar owner name type default).entries c =
      p.entries c + if .var = c then 1 else 0 := by
  have hslot := entries_addSlot p owner c
  cases c with
  | const => exact hslot
  | var => simp [entries, addVar]
  | function => exact hslot

/-- Enters a function without parameters; its body is the one given until the real one is
known. -/
def addFunction (p : Program) (name : String) (result : ValueType) (body : Option Block) :
    Program :=
  let entry : Function :=
    { name := name, params := [], result := result, body := body, localCount := 0 }
  { p with functions := p.functions ++ [entry] }

theorem entries_addFunction (p : Program) (name : String) (result : ValueType)
    (body : Option Block) (c : Category) :
    (p.addFunction name result body).entries c =
      p.entries c + if .function = c then 1 else 0 := by
  cases c <;> simp [entries, addFunction]

def setParams (p : Program) (f : FunId) (params : List Param) : Program :=
  p.setFunction f { p.function f with params := params }

theorem entries_setParams (p : Program) (f : FunId) (params : List Param) (c : Category) :
    (p.setParams f params).entries c = p.entries c :=
  entries_setFunction p f _ c

def setBody (p : Program) (f : FunId) (body : Block) : Program :=
  p.setFunction f { p.function f with body := some body }

theorem entries_setBody (p : Program) (f : FunId) (body : Block) (c : Category) :
    (p.setBody f body).entries c = p.entries c :=
  entries_setFunction p f _ c

end Program
end Scriptlet
