import Scriptlet.Proofs.Program.WellFormed

/-!
# Slots

Where the tables of a program agree, no two variables share a slot of one owner, and
every slot of a function lies inside the frames of that function.  What is stored for
one variable of a frame is thus read back, and is read for no other.
-/

namespace Scriptlet
namespace Program

variable {p : Program}

theorem lt_of_owner {id : VarId} {f : FunId} (h : (p.variableAt id).owner = some f) :
    id < p.vars.length := by
  by_cases hid : id < p.vars.length
  · exact hid
  · have hmissing : p.variableAt id = default := by
      rw [variableAt, List.getD_eq_getElem?_getD, List.getElem?_eq_none (Nat.le_of_not_lt hid)]
      rfl
    rw [hmissing] at h
    cases h

theorem lt_of_local {id : VarId} (h : (p.variableAt id).owner ≠ none) : id < p.vars.length := by
  cases howner : (p.variableAt id).owner with
  | none => exact absurd howner h
  | some f => exact lt_of_owner howner

theorem variableAt_mem {id : VarId} (hid : id < p.vars.length) : p.variableAt id ∈ p.vars := by
  rw [variableAt, List.getD_eq_getElem?_getD, List.getElem?_eq_getElem hid]
  exact List.getElem_mem hid

theorem Tables.slot_lt (h : p.Tables) {id : VarId} (hid : id < p.vars.length) :
    (p.variableAt id).slot < p.slotCount (p.variableAt id).owner := by
  have hmem : (p.variableAt id).slot ∈ p.slotsOf (p.variableAt id).owner := by
    apply List.mem_map_of_mem
    simp [variableAt_mem hid]
  rw [h.slots, List.mem_range] at hmem
  exact hmem

theorem Tables.slot_ne_of_lt (h : p.Tables) {id other : VarId} (hlt : id < other)
    (hother : other < p.vars.length)
    (howner : (p.variableAt id).owner = (p.variableAt other).owner) :
    (p.variableAt id).slot ≠ (p.variableAt other).slot := by
  have hnodup : (p.slotsOf (p.variableAt other).owner).Nodup := by
    rw [h.slots]
    exact List.nodup_range
  rw [slotsOf, List.Nodup, List.pairwise_map, List.pairwise_filter,
    List.pairwise_iff_getElem] at hnodup
  have hid : id < p.vars.length := Nat.lt_trans hlt hother
  have hne := hnodup id other hid hother hlt
  have hget : forall {n : Nat} (hn : n < p.vars.length), p.vars[n] = p.variableAt n := by
    intro n hn
    rw [variableAt, List.getD_eq_getElem?_getD, List.getElem?_eq_getElem hn]
    rfl
  rw [hget hid, hget hother] at hne
  exact hne (by simp [howner]) (by simp)

/-- No two variables share a slot of their owner. -/
theorem Tables.slot_unique (h : p.Tables) {id other : VarId} (hid : id < p.vars.length)
    (hother : other < p.vars.length)
    (howner : (p.variableAt id).owner = (p.variableAt other).owner)
    (hslot : (p.variableAt id).slot = (p.variableAt other).slot) : id = other := by
  rcases Nat.lt_trichotomy id other with hlt | heq | hgt
  · exact absurd hslot (h.slot_ne_of_lt hlt hother howner)
  · exact heq
  · exact absurd hslot.symm (h.slot_ne_of_lt hgt hid howner.symm)

theorem Tables.slot_inj (h : p.Tables) {id other : VarId} {f : FunId}
    (hid : (p.variableAt id).owner = some f) (hother : (p.variableAt other).owner = some f)
    (hslot : (p.variableAt id).slot = (p.variableAt other).slot) : id = other :=
  h.slot_unique (lt_of_owner hid) (lt_of_owner hother) (hid.trans hother.symm) hslot

end Program
end Scriptlet
