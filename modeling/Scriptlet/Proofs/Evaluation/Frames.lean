import Mathlib.Data.List.Forall2
import Scriptlet.Evaluation.Execute
import Scriptlet.Folding.Valuation
import Scriptlet.Proofs.Program.Slots

/-!
# Values of variables

A frame holds a valuation of the variables of its function, and a machine holds a
valuation of all variables that are found in it.  Storing a value for a variable of a
frame changes what is held for that variable and for no other.
-/

namespace Scriptlet

variable {ρ : Type}

def Frame.Holds (p : Program) (f : FunId) (values : Valuation) (frame : Frame ρ) : Prop :=
  forall id v, (p.variableAt id).owner = some f -> values.get? id = some v ->
    frame.slot (p.variableAt id).slot = some v

structure Frame.IsOf (p : Program) (f : FunId) (frame : Frame ρ) : Prop where
  owner : frame.owner = f
  slots : frame.slots.length = (p.function f).localCount

def Machine.Holds {σ : Type} (p : Program) (values : Valuation) (m : Machine σ ρ) : Prop :=
  forall id v, values.get? id = some v -> m.read p id = some v

namespace Frame

variable {p : Program} {f : FunId} {values : Valuation} {frame : Frame ρ}

theorem slot_setSlot (frame : Frame ρ) (index other : Nat) (v : Value)
    (hindex : index < frame.slots.length) :
    (frame.setSlot index v).slot other = if index = other then some v else frame.slot other := by
  simp only [slot, setSlot, List.getD_eq_getElem?_getD, List.getElem?_set]
  by_cases hother : index = other
  · subst hother
    simp [hindex]
  · simp [hother]

theorem IsOf.setSlot (h : frame.IsOf p f) (index : Nat) (v : Value) :
    (frame.setSlot index v).IsOf p f where
  owner := h.owner
  slots := List.length_set.trans h.slots

theorem IsOf.slot_lt (h : frame.IsOf p f) (htables : p.Tables) {id : VarId}
    (hid : (p.variableAt id).owner = some f) :
    (p.variableAt id).slot < frame.slots.length := by
  have hlt := htables.slot_lt (Program.lt_of_owner hid)
  rw [hid] at hlt
  rw [h.slots]
  exact hlt

theorem Holds.setSlot (h : frame.Holds p f values) (hframe : frame.IsOf p f)
    (htables : p.Tables) {id : VarId} (hid : (p.variableAt id).owner = some f) (v : Value) :
    (frame.setSlot (p.variableAt id).slot v).Holds p f (values.set id v) := by
  intro other w hother hw
  rw [slot_setSlot frame _ _ v (hframe.slot_lt htables hid)]
  rw [Valuation.get?_set] at hw
  by_cases heq : other = id
  · rw [if_pos heq] at hw
    rw [heq, if_pos rfl]
    exact hw
  · rw [if_neg heq] at hw
    have hslot : (p.variableAt id).slot ≠ (p.variableAt other).slot :=
      fun hslot => heq (htables.slot_inj hother hid hslot.symm)
    rw [if_neg hslot]
    exact h other w hother hw

end Frame

/-!
# The frame of a call
-/

def Accepted (params : List Param) (values : List Value) : Prop :=
  forall entry, entry ∈ params.zip values -> entry.1.type.accepts entry.2.type = true

theorem accepted_cons {param : Param} {params : List Param} {value : Value} {values : List Value}
    (hvalue : param.type.accepts value.type = true) (hvalues : Accepted params values) :
    Accepted (param :: params) (value :: values) := by
  intro entry hentry
  rcases List.mem_cons.mp hentry with hentry | hentry
  · rw [hentry]
    exact hvalue
  · exact hvalues entry hentry

theorem accepted_of_nil {params : List Param} {values : List Value}
    (h : params = [] ∨ values = []) : Accepted params values := by
  intro entry hentry
  rcases h with h | h <;> simp [h] at hentry

section CallFrame

variable {p : Program} {f : FunId}

def fillSlot (p : Program) (slots : List (Option Value)) (entry : Param × Value) :
    List (Option Value) :=
  slots.set (p.variableAt entry.1.var).slot (some entry.2)

theorem holds_fill (htables : p.Tables) (entries : List (Param × Value))
    (hentries : forall entry, entry ∈ entries -> (p.variableAt entry.1.var).owner = some f)
    {frame : Frame ρ} {values : Valuation} (hframe : frame.IsOf p f)
    (h : frame.Holds p f values) :
    Frame.IsOf p f { frame with slots := entries.foldl (fillSlot p) frame.slots } ∧
      Frame.Holds p f
        ((entries.map fun entry => (entry.1.var, entry.2)).foldl
          (fun v entry => v.set entry.1 entry.2) values)
        { frame with slots := entries.foldl (fillSlot p) frame.slots } := by
  induction entries generalizing frame values with
  | nil => exact ⟨hframe, h⟩
  | cons entry rest ih =>
      have hid := hentries entry List.mem_cons_self
      exact ih (fun other hother => hentries other (List.mem_cons_of_mem _ hother))
        (hframe.setSlot _ entry.2) (h.setSlot hframe htables hid entry.2)

theorem holds_callFrame (htables : p.Tables) (args : List Value) :
    (Eval.callFrame p f args : Frame ρ).IsOf p f ∧
      (Eval.callFrame p f args : Frame ρ).Holds p f
        (Valuation.ofList (((p.function f).params.map (·.var)).zip args)) := by
  let start : Frame ρ :=
    { owner := f, slots := List.replicate (p.function f).localCount none, tasks := .empty }
  have hstart : start.IsOf p f := ⟨rfl, List.length_replicate⟩
  have hnone : start.Holds p f .empty := by
    intro id v _ hv
    cases hv
  have hparams : forall entry, entry ∈ (p.function f).params.zip args ->
      (p.variableAt entry.1.var).owner = some f := by
    intro entry hentry
    have hparam := List.of_mem_zip hentry
    rcases List.mem_iff_getElem?.mp hparam.1 with ⟨i, hi⟩
    exact (htables.params f i entry.1 hi).2.1
  have hfill := holds_fill htables _ hparams hstart hnone
  have hzip : ((p.function f).params.map (·.var)).zip args =
      ((p.function f).params.zip args).map fun entry => (entry.1.var, entry.2) :=
    List.zip_map_left
  rw [← hzip] at hfill
  exact hfill

end CallFrame

/-!
# Changing a frame
-/

theorem forall₂_updateFrame {R : Frame ρ -> Frame ρ -> Prop}
    (hrefl : forall frame, R frame frame) {f : FunId} {change : Frame ρ -> Frame ρ}
    (hchange : forall frame : Frame ρ, frame.owner = f -> R frame (change frame))
    {frames frames' : List (Frame ρ)} (h : Machine.updateFrame f change frames = some frames') :
    List.Forall₂ R frames frames' := by
  induction frames generalizing frames' with
  | nil => cases h
  | cons frame rest ih =>
      rw [Machine.updateFrame] at h
      by_cases hf : frame.owner = f
      · rw [if_pos hf] at h
        cases h
        exact .cons (hchange frame hf) (List.forall₂_same.mpr fun other _ => hrefl other)
      · rw [if_neg hf] at h
        rcases Option.map_eq_some_iff.mp h with ⟨rest', hrest, hcons⟩
        cases hcons
        exact .cons (hrefl frame) (ih hrest)

theorem forall_updateFrame {P : Frame ρ -> Prop} {f : FunId} {change : Frame ρ -> Frame ρ}
    (hchange : forall frame : Frame ρ, frame.owner = f -> P frame -> P (change frame))
    {frames frames' : List (Frame ρ)} (h : forall frame, frame ∈ frames -> P frame)
    (hupdate : Machine.updateFrame f change frames = some frames') :
    forall frame, frame ∈ frames' -> P frame := by
  have hkept : List.Forall₂ (fun a b => P a -> P b) frames frames' :=
    forall₂_updateFrame (fun _ => id) hchange hupdate
  clear hupdate
  induction hkept with
  | nil => exact h
  | cons hfirst _ ih =>
      rw [List.forall_mem_cons] at h ⊢
      exact ⟨hfirst h.1, ih h.2⟩

theorem map_updateFrame {α : Type} {view : Frame ρ -> α} {f : FunId}
    {change : Frame ρ -> Frame ρ} {frames frames' : List (Frame ρ)}
    (h : Machine.updateFrame f change frames = some frames')
    (hchange : forall frame, view (change frame) = view frame) :
    frames'.map view = frames.map view := by
  rw [Eq.comm, ← List.forall₂_eq_eq_eq, List.forall₂_map_left_iff, List.forall₂_map_right_iff]
  refine forall₂_updateFrame ?_ ?_ h
  · exact fun _ => rfl
  · exact fun frame _ => (hchange frame).symm

theorem updateFrame_split {owner : FunId} {change : Frame ρ -> Frame ρ}
    {frames frames' : List (Frame ρ)} (h : Machine.updateFrame owner change frames = some frames') : exists frame before after,
      frames.find? (·.owner == owner) = some frame ∧ frames = before ++ frame :: after ∧
        frames' = before ++ change frame :: after := by
  induction frames generalizing frames' with
  | nil => cases h
  | cons other rest ih =>
      rw [Machine.updateFrame] at h
      rw [List.find?_cons]
      by_cases howner : other.owner = owner
      · rw [if_pos howner] at h
        cases h
        exact ⟨other, [], rest, by rw [beq_iff_eq.mpr howner], rfl, rfl⟩
      · rw [if_neg howner] at h
        rcases Option.map_eq_some_iff.mp h with ⟨rest', hrest, hcons⟩
        rcases ih hrest with ⟨frame, before, after, hfind, hsplit, hsplit'⟩
        cases hcons
        rw [beq_eq_false_iff_ne.mpr howner]
        exact ⟨frame, other :: before, after, hfind, congrArg (other :: ·) hsplit,
          congrArg (other :: ·) hsplit'⟩

theorem updateFrame_eq_none {owner : FunId} {change : Frame ρ -> Frame ρ}
    {frames : List (Frame ρ)} (h : frames.find? (·.owner == owner) = none) :
    Machine.updateFrame owner change frames = none := by
  induction frames with
  | nil => rfl
  | cons frame rest ih =>
      rw [List.find?_cons] at h
      cases hframe : frame.owner == owner with
      | true =>
          rw [hframe] at h
          cases h
      | false =>
          rw [hframe] at h
          rw [Machine.updateFrame, if_neg (beq_eq_false_iff_ne.mp hframe), ih h]
          rfl

theorem find?_updateFrame {owner : FunId} {change : Frame ρ -> Frame ρ}
    {frames frames' : List (Frame ρ)} (h : Machine.updateFrame owner change frames = some frames')
    (hchange : forall frame : Frame ρ, (change frame).owner = frame.owner) :
    frames'.find? (·.owner == owner) = (frames.find? (·.owner == owner)).map change := by
  induction frames generalizing frames' with
  | nil => cases h
  | cons frame rest ih =>
      rw [Machine.updateFrame] at h
      rw [List.find?_cons]
      by_cases howner : frame.owner = owner
      · rw [if_pos howner] at h
        cases h
        rw [List.find?_cons, hchange, beq_iff_eq.mpr howner]
        rfl
      · rw [if_neg howner] at h
        rcases Option.map_eq_some_iff.mp h with ⟨rest', hrest, hcons⟩
        cases hcons
        rw [List.find?_cons, beq_eq_false_iff_ne.mpr howner]
        exact ih hrest

theorem forall₂_trans {R : Frame ρ -> Frame ρ -> Prop}
    (htrans : forall a b c, R a b -> R b c -> R a c) {as bs cs : List (Frame ρ)}
    (h : List.Forall₂ R as bs) (h' : List.Forall₂ R bs cs) : List.Forall₂ R as cs := by
  induction h generalizing cs with
  | nil => exact h'
  | cons hfirst _ ih =>
      cases h' with
      | cons hfirst' hrest' => exact .cons (htrans _ _ _ hfirst hfirst') (ih hrest')

namespace Machine

variable {σ : Type} {p : Program} {m m' : Machine σ ρ}

theorem frames_store? {id : VarId} {v : Value} (h : m.store? p id v = some m') :
    m'.frames = m.frames ∨ exists f, (p.variableAt id).owner = some f ∧
      updateFrame f (·.setSlot (p.variableAt id).slot v) m.frames = some m'.frames := by
  rw [store?] at h
  cases howner : (p.variableAt id).owner with
  | none =>
      rw [howner] at h
      cases h
      exact .inl rfl
  | some f =>
      rw [howner] at h
      rcases Option.map_eq_some_iff.mp h with ⟨frames, hframes, hm'⟩
      cases hm'
      exact .inr ⟨f, rfl, hframes⟩

theorem frames_updateTasks? {id : VarId} {g : TaskList ρ -> TaskList ρ}
    (h : m.updateTasks? p id g = some m') :
    m'.frames = m.frames ∨ exists f, (p.variableAt id).owner = some f ∧
      updateFrame f (·.mapTasks g) m.frames = some m'.frames := by
  rw [updateTasks?] at h
  cases howner : (p.variableAt id).owner with
  | none =>
      rw [howner] at h
      cases h
      exact .inl rfl
  | some f =>
      rw [howner] at h
      rcases Option.map_eq_some_iff.mp h with ⟨frames, hframes, hm'⟩
      cases hm'
      exact .inr ⟨f, rfl, hframes⟩

/-- The sets of tasks: that of the globals, and one for each frame. -/
def sets (m : Machine σ ρ) : List (TaskList ρ) :=
  m.tasks :: m.frames.map (·.tasks)

theorem sets_store? {id : VarId} {v : Value} (h : m.store? p id v = some m') :
    m'.sets = m.sets := by
  rw [store?] at h
  cases howner : (p.variableAt id).owner with
  | none =>
      rw [howner] at h
      cases h
      rfl
  | some f =>
      rw [howner] at h
      rcases Option.map_eq_some_iff.mp h with ⟨frames, hframes, rfl⟩
      exact congrArg (m.tasks :: ·) (map_updateFrame hframes fun _ => rfl)

theorem mem_sets_of_tasksFor {id : VarId} {tasks : TaskList ρ} (h : m.tasksFor p id = some tasks) :
    tasks ∈ m.sets := by
  rw [tasksFor] at h
  cases howner : (p.variableAt id).owner with
  | none =>
      rw [howner] at h
      cases h
      exact List.mem_cons_self
  | some f =>
      rw [howner] at h
      rcases Option.map_eq_some_iff.mp h with ⟨frame, hframe, rfl⟩
      exact List.mem_cons_of_mem _ (List.mem_map.mpr ⟨frame, List.mem_of_find?_eq_some hframe, rfl⟩)

theorem sets_updateTasks? {id : VarId} {change : TaskList ρ -> TaskList ρ}
    (h : m.updateTasks? p id change = some m') : exists tasks before after,
      m.tasksFor p id = some tasks ∧ m.sets = before ++ tasks :: after ∧
        m'.sets = before ++ change tasks :: after := by
  rw [updateTasks?] at h
  rw [tasksFor]
  cases howner : (p.variableAt id).owner with
  | none =>
      rw [howner] at h
      cases h
      exact ⟨m.tasks, [], _, rfl, rfl, rfl⟩
  | some owner =>
      rw [howner] at h
      rcases Option.map_eq_some_iff.mp h with ⟨frames, hframes, rfl⟩
      rcases updateFrame_split hframes with ⟨frame, before, after, hfind, hsplit, hsplit'⟩
      refine ⟨frame.tasks, m.tasks :: before.map (·.tasks), after.map (·.tasks), ?_, ?_, ?_⟩
      · exact congrArg (Option.map (·.tasks)) hfind
      · simp [sets, hsplit]
      · simp [sets, hsplit', Frame.mapTasks]

end Machine

/-!
# Reading and storing below a frame
-/

namespace Machine

variable {σ : Type} {p : Program} {f : FunId} {frame : Frame ρ} (m : Machine σ ρ)

theorem read_push_global {id : VarId} (hid : (p.variableAt id).owner = none) :
    (m.push frame).read p id = m.read p id := by
  simp only [read, hid]
  rfl

theorem read_push_local (hframe : frame.owner = f) {id : VarId}
    (hid : (p.variableAt id).owner = some f) :
    (m.push frame).read p id = frame.slot (p.variableAt id).slot := by
  simp [read, hid, frameOf, push, hframe]

theorem store?_push_local (hframe : frame.owner = f) {id : VarId}
    (hid : (p.variableAt id).owner = some f) (v : Value) :
    (m.push frame).store? p id v = some (m.push (frame.setSlot (p.variableAt id).slot v)) := by
  simp [store?, hid, updateFrame, push, hframe]

theorem pop_push (name : VarId -> String) (htasks : frame.tasks = .empty) :
    pop name (m.push frame) = m := by
  simp [pop, push, htasks, TaskList.leaks, TaskList.empty, TaskList.addLeaks]

end Machine
end Scriptlet
