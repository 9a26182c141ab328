import Scriptlet.Value

/-!
# Scopes and names

The table keeps every identifier that was ever declared.  Scopes are numbered as
they are reserved and never share a number.  A name is visible when it was
declared in the current scope or in one that is still open; among the visible
identifiers of a name the one from the deepest level is meant.

Scopes, levels and entries are counted in a type of numbers.  A program that is read has
fewer names than any bound, so that the parser counts in the natural numbers; the table as
it is stored counts in words of 32 bits.
-/

namespace Scriptlet

/-- The table that an identifier indexes. -/
inductive Category where
  | const | var | function
deriving DecidableEq, Repr, Inhabited

/-- A name and what it stands for: an entry of the table of its category. -/
structure Binding (κ : Type := Nat) where
  category : Category
  name : String
  id : κ
  type : ValueType
deriving DecidableEq, Repr, Inhabited

/-- A binding with the scope in which it was declared. -/
structure Identifier (κ : Type := Nat) extends Binding κ where
  level : κ
  scope : κ
deriving DecidableEq, Repr, Inhabited

/-- The next free index in the table of each category. -/
structure Counters (κ : Type := Nat) where
  consts : κ
  vars : κ
  functions : κ
deriving DecidableEq, Repr

namespace Counters

variable {κ : Type}

def get (c : Counters κ) : Category -> κ
  | .const => c.consts
  | .var => c.vars
  | .function => c.functions

def next [Add κ] [OfNat κ 1] (c : Counters κ) : Category -> Counters κ
  | .const => { c with consts := c.consts + 1 }
  | .var => { c with vars := c.vars + 1 }
  | .function => { c with functions := c.functions + 1 }

end Counters

structure SymbolTable (κ : Type := Nat) where
  /-- All identifiers, in the order of their declaration. -/
  identifiers : List (Identifier κ)
  /-- The scopes around the current one, innermost first. -/
  enclosing : List κ
  current : κ
  level : κ
  nextScope : κ
  counters : Counters κ
deriving DecidableEq, Repr

namespace SymbolTable

variable {κ : Type}

def empty [OfNat κ 0] [OfNat κ 1] : SymbolTable κ :=
  { identifiers := []
    enclosing := []
    current := 0
    level := 0
    nextScope := 1
    counters := { consts := 0, vars := 0, functions := 0 } }

instance [OfNat κ 0] [OfNat κ 1] : Inhabited (SymbolTable κ) :=
  ⟨empty⟩

def isDeclaredHere [DecidableEq κ] (t : SymbolTable κ) (name : String) : Bool :=
  t.identifiers.any fun i => i.name == name && i.scope == t.current

def nextId (t : SymbolTable κ) (category : Category) : κ :=
  t.counters.get category

/-- Declares a name in the current scope, unless the scope has it already. -/
def declare? [DecidableEq κ] [Add κ] [OfNat κ 1] (t : SymbolTable κ) (category : Category)
    (name : String) (type : ValueType) : Option (Identifier κ × SymbolTable κ) :=
  if t.isDeclaredHere name then
    none
  else
    let identifier : Identifier κ :=
      { category := category
        name := name
        level := t.level
        scope := t.current
        id := t.nextId category
        type := type }
    some (identifier,
      { t with
        counters := t.counters.next category
        identifiers := t.identifiers ++ [identifier] })

def isOpen [DecidableEq κ] (t : SymbolTable κ) (scope : κ) : Bool :=
  scope == t.current || t.enclosing.contains scope

def isVisible [DecidableEq κ] (t : SymbolTable κ) (name : String) (i : Identifier κ) : Bool :=
  i.name == name && t.isOpen i.scope

/-- The deeper of two identifiers; of two equally deep ones, the later. -/
def deeper [LE κ] [DecidableLE κ] : Option (Identifier κ) -> Identifier κ -> Option (Identifier κ)
  | none, i => some i
  | some best, i => if best.level ≤ i.level then some i else some best

def resolve [DecidableEq κ] [LE κ] [DecidableLE κ] (t : SymbolTable κ) (name : String) :
    Option (Identifier κ) :=
  (t.identifiers.filter (t.isVisible name)).foldl deeper none

/-!
# Moving between scopes
-/

def reserve [Add κ] [OfNat κ 1] (t : SymbolTable κ) : κ × SymbolTable κ :=
  (t.nextScope, { t with nextScope := t.nextScope + 1 })

def enter [Add κ] [OfNat κ 1] (t : SymbolTable κ) (scope : κ) : SymbolTable κ :=
  { t with enclosing := t.current :: t.enclosing, current := scope, level := t.level + 1 }

def enterBlock [Add κ] [OfNat κ 1] (t : SymbolTable κ) : κ × SymbolTable κ :=
  let (scope, t) := t.reserve
  (scope, t.enter scope)

def exit [Sub κ] [OfNat κ 1] (t : SymbolTable κ) : SymbolTable κ :=
  match t.enclosing with
  | [] => t
  | scope :: rest => { t with enclosing := rest, current := scope, level := t.level - 1 }

end SymbolTable
end Scriptlet
