import Scriptlet.Program.Tables

/-!
# Valuations

A valuation says which variables have a known value.
-/

namespace Scriptlet

structure Valuation where
  entries : List (VarId × Value)
deriving Inhabited

namespace Valuation

def empty : Valuation :=
  { entries := [] }

def get? (v : Valuation) (id : VarId) : Option Value :=
  v.entries.lookup id

def erase (v : Valuation) (id : VarId) : Valuation :=
  { entries := v.entries.filter (·.1 != id) }

def set (v : Valuation) (id : VarId) (value : Value) : Valuation :=
  { entries := (id, value) :: (v.erase id).entries }

def keep (test : VarId -> Bool) (v : Valuation) : Valuation :=
  { entries := v.entries.filter (test ·.1) }

/-- The values of `w`, and those of `v` where `w` has none. -/
def override (v w : Valuation) : Valuation :=
  { entries := w.entries ++ v.entries }

def ofList (entries : List (VarId × Value)) : Valuation :=
  entries.foldl (fun v entry => v.set entry.1 entry.2) empty

/-!
# Lookup equations
-/

theorem lookup_filter (entries : List (VarId × Value)) (test : VarId -> Bool) (id : VarId) :
    (entries.filter (test ·.1)).lookup id = if test id then entries.lookup id else none := by
  induction entries with
  | nil =>
      simp
  | cons entry rest ih =>
      obtain ⟨key, value⟩ := entry
      by_cases hkey : id = key
      · subst hkey
        cases htest : test id with
        | false => simp [htest, ih]
        | true => simp [htest]
      · have hbeq : (id == key) = false := by
          simpa using hkey
        cases htest : test key with
        | false => simp [List.lookup_cons, htest, hbeq, ih]
        | true => simp [List.lookup_cons, htest, hbeq, ih]

@[simp] theorem get?_empty (id : VarId) : empty.get? id = none :=
  rfl

@[simp] theorem get?_erase (v : Valuation) (id other : VarId) :
    (v.erase id).get? other = if other = id then none else v.get? other := by
  simp only [get?, erase]
  rw [lookup_filter v.entries (· != id) other]
  by_cases h : other = id <;> simp [h]

@[simp] theorem get?_set (v : Valuation) (id other : VarId) (value : Value) :
    (v.set id value).get? other = if other = id then some value else v.get? other := by
  by_cases h : other = id
  · simp [get?, set, h]
  · have hbeq : (other == id) = false := by
      simpa using h
    have herase := get?_erase v id other
    simp only [get?, h, if_false] at herase
    simp [get?, set, List.lookup_cons, hbeq, h, herase]

@[simp] theorem get?_keep (v : Valuation) (test : VarId -> Bool) (id : VarId) :
    (v.keep test).get? id = if test id then v.get? id else none :=
  lookup_filter v.entries test id

end Valuation
end Scriptlet
