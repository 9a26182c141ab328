import Scriptlet.Proofs.Evaluation.Frames

/-!
# Typed machines

A machine is typed when all slots of the globals and of the active calls are there and
whatever is stored in one of them has the type of the variable to which the slot
belongs.  Storing a checked value keeps a machine typed, and so does all else that
happens to its frames and tasks.
-/

namespace Scriptlet

variable {ρ : Type}

/-- The variable is stored in the slot of the owner. -/
structure Program.Owns (p : Program) (owner : Option FunId) (slot : Nat) (id : VarId) : Prop where
  lt : id < p.vars.length
  owner : (p.variableAt id).owner = owner
  slot : (p.variableAt id).slot = slot

theorem Program.Tables.owns_unique {p : Program} (h : p.Tables) {owner : Option FunId}
    {slot : Nat} {id other : VarId} (hid : p.Owns owner slot id)
    (hother : p.Owns owner slot other) : id = other :=
  h.slot_unique hid.lt hother.lt (hid.owner.trans hother.owner.symm)
    (hid.slot.trans hother.slot.symm)

structure SlotsTyped (p : Program) (owner : Option FunId) (slots : List (Option Value)) :
    Prop where
  length : slots.length = p.slotCount owner
  typed : forall slot v, slots[slot]? = some (some v) ->
    exists id, p.Owns owner slot id ∧ v.type = (p.variableAt id).type

def TaskList.Targets (p : Program) (tasks : TaskList ρ) : Prop :=
  forall task, task ∈ tasks.pending -> task.target < p.vars.length

structure Frame.Typed (p : Program) (frame : Frame ρ) : Prop where
  slots : SlotsTyped p (some frame.owner) frame.slots
  owner : frame.owner < p.functions.length
  tasks : frame.tasks.Targets p

structure Machine.Typed {σ : Type} (p : Program) (m : Machine σ ρ) : Prop where
  globals : SlotsTyped p none m.globals
  frames : forall frame, frame ∈ m.frames -> frame.Typed p
  tasks : m.tasks.Targets p

/-!
# Slots
-/

section Slots

variable {p : Program} {owner : Option FunId} {slots : List (Option Value)}

theorem SlotsTyped.set (h : SlotsTyped p owner slots) {slot : Nat} {id : VarId}
    (hid : p.Owns owner slot id) {value : Option Value}
    (hvalue : forall v, value = some v -> v.type = (p.variableAt id).type) :
    SlotsTyped p owner (slots.set slot value) where
  length := List.length_set.trans h.length
  typed := by
    intro other v hv
    rw [List.getElem?_set] at hv
    by_cases hother : slot = other
    · subst hother
      rw [if_pos rfl] at hv
      split at hv
      · exact ⟨id, hid, hvalue v (Option.some.inj hv)⟩
      · cases hv
    · rw [if_neg hother] at hv
      exact h.typed other v hv

theorem slotsTyped_replicate (p : Program) (owner : Option FunId) :
    SlotsTyped p owner (List.replicate (p.slotCount owner) none) where
  length := List.length_replicate
  typed := by
    intro slot v hv
    rw [List.getElem?_replicate] at hv
    split at hv <;> cases hv

theorem SlotsTyped.foldl {entry : Type} {fill : List (Option Value) -> entry -> List (Option Value)}
    {entries : List entry} (hfill : forall e, e ∈ entries -> forall slots,
      SlotsTyped p owner slots -> SlotsTyped p owner (fill slots e))
    (h : SlotsTyped p owner slots) : SlotsTyped p owner (entries.foldl fill slots) := by
  induction entries generalizing slots with
  | nil => exact h
  | cons e rest ih =>
      apply ih
      · intro e' he'
        exact hfill e' (List.mem_cons_of_mem e he')
      · exact hfill e List.mem_cons_self slots h

end Slots

/-!
# Frames
-/

section Frames

variable {p : Program} {frame : Frame ρ}

theorem Frame.Typed.setSlot (h : frame.Typed p) {slot : Nat} {id : VarId}
    (hid : p.Owns (some frame.owner) slot id) {v : Value} (hv : v.type = (p.variableAt id).type) :
    (frame.setSlot slot v).Typed p where
  slots := by
    apply h.slots.set hid
    intro w hw
    cases hw
    exact hv
  owner := h.owner
  tasks := h.tasks

theorem Frame.Typed.mapTasks (h : frame.Typed p) {g : TaskList ρ -> TaskList ρ}
    (hg : forall tasks : TaskList ρ, tasks.Targets p -> (g tasks).Targets p) :
    (frame.mapTasks g).Typed p where
  slots := h.slots
  owner := h.owner
  tasks := hg frame.tasks h.tasks

theorem typed_callFrame (htables : p.Tables) {f : FunId} (hf : f < p.functions.length)
    (hexact : p.ParamsExact f) {values : List Value}
    (haccepted : Accepted (p.function f).params values) :
    (Eval.callFrame p f values : Frame ρ).Typed p where
  slots := by
    apply SlotsTyped.foldl _ (slotsTyped_replicate p (some f))
    intro entry hentry slots hslots
    have hparam := (List.of_mem_zip hentry).1
    rcases List.mem_iff_getElem?.mp hparam with ⟨i, hi⟩
    rcases htables.params f i entry.1 hi with ⟨hlt, howner, -, htype⟩
    apply hslots.set ⟨hlt, howner, rfl⟩
    intro v hv
    cases hv
    have haccepts := haccepted entry hentry
    have hany : (entry.1.type == .any) = false := by
      simpa using hexact entry.1 hparam
    rw [ValueType.accepts, hany, Bool.false_or, beq_iff_eq] at haccepts
    rw [htype, ← haccepts]
  owner := hf
  tasks := by
    intro task htask
    cases htask

end Frames

/-!
# Tasks
-/

theorem TaskList.targets_empty (p : Program) : (empty : TaskList ρ).Targets p := by
  intro task htask
  cases htask

theorem TaskList.mem_replace {task other : PendingTask ρ} {pending : List (PendingTask ρ)}
    (h : other ∈ replace task pending) : other = task ∨ other ∈ pending := by
  induction pending with
  | nil => exact .inl (List.mem_singleton.mp h)
  | cons first rest ih =>
      unfold replace at h
      split at h
      · rcases List.mem_cons.mp h with h | h
        · exact .inl h
        · exact .inr (List.mem_cons_of_mem first h)
      · rcases List.mem_cons.mp h with h | h
        · exact .inr (h ▸ List.mem_cons_self)
        · rcases ih h with h | h
          · exact .inl h
          · exact .inr (List.mem_cons_of_mem first h)

theorem TaskList.Targets.insert {p : Program} {tasks : TaskList ρ} (h : tasks.Targets p)
    {name : VarId -> String} {task : PendingTask ρ} (htask : task.target < p.vars.length) :
    (tasks.insert name task).Targets p := by
  intro other hother
  rcases mem_replace hother with hother | hother
  · rw [hother]
    exact htask
  · exact h other hother

theorem TaskList.Targets.erase {p : Program} {tasks : TaskList ρ} (h : tasks.Targets p)
    (target : VarId) : (tasks.erase target).Targets p :=
  fun task htask => h task (List.mem_of_mem_eraseP htask)

/-!
# Machines
-/

namespace Machine

variable {σ : Type} {p : Program} {m : Machine σ ρ}

theorem Typed.store? (h : m.Typed p) {id : VarId} (hid : id < p.vars.length) {v : Value}
    (hv : v.type = (p.variableAt id).type) {m' : Machine σ ρ}
    (hstore : m.store? p id v = some m') :
    m'.Typed p := by
  unfold Machine.store? at hstore
  cases howner : (p.variableAt id).owner with
  | none =>
      simp only [howner, Option.some.injEq] at hstore
      rw [← hstore]
      refine ⟨h.globals.set ⟨hid, howner, rfl⟩ ?_, h.frames, h.tasks⟩
      intro w hw
      cases hw
      exact hv
  | some f =>
      simp only [howner] at hstore
      rcases Option.map_eq_some_iff.mp hstore with ⟨frames, hupdate, hframes⟩
      rw [← hframes]
      refine ⟨h.globals, forall_updateFrame ?_ h.frames hupdate, h.tasks⟩
      intro frame hframe htyped
      exact htyped.setSlot ⟨hid, hframe ▸ howner, rfl⟩ hv

theorem Typed.updateTasks? (h : m.Typed p) {id : VarId} {g : TaskList ρ -> TaskList ρ}
    (hg : forall tasks : TaskList ρ, tasks.Targets p -> (g tasks).Targets p) {m' : Machine σ ρ}
    (hupdate : m.updateTasks? p id g = some m') : m'.Typed p := by
  unfold Machine.updateTasks? at hupdate
  cases howner : (p.variableAt id).owner with
  | none =>
      simp only [howner, Option.some.injEq] at hupdate
      rw [← hupdate]
      exact ⟨h.globals, h.frames, hg m.tasks h.tasks⟩
  | some f =>
      simp only [howner] at hupdate
      rcases Option.map_eq_some_iff.mp hupdate with ⟨frames, hframe, hframes⟩
      rw [← hframes]
      refine ⟨h.globals, forall_updateFrame ?_ h.frames hframe, h.tasks⟩
      intro frame _ htyped
      exact htyped.mapTasks hg

theorem Typed.push (h : m.Typed p) {frame : Frame ρ} (hframe : frame.Typed p) :
    (m.push frame).Typed p where
  globals := h.globals
  frames := by
    intro other hother
    rcases List.mem_cons.mp hother with hother | hother
    · rw [hother]
      exact hframe
    · exact h.frames other hother
  tasks := h.tasks

theorem Typed.pop (h : m.Typed p) (name : VarId -> String) : (pop name m).Typed p := by
  unfold Machine.pop
  cases hframes : m.frames with
  | nil => exact h
  | cons frame rest =>
      refine ⟨h.globals, ?_, h.tasks⟩
      intro other hother
      apply h.frames
      rw [hframes]
      exact List.mem_cons_of_mem frame hother

theorem Typed.forTask (h : m.Typed p) : m.forTask.Typed p where
  globals := h.globals
  frames := by
    intro frame hframe
    cases hframe
  tasks := TaskList.targets_empty p

theorem Typed.afterTask (h : m.Typed p) {task : Machine σ ρ} (htask : task.Typed p) :
    (m.afterTask task).Typed p where
  globals := htask.globals
  frames := h.frames
  tasks := h.tasks

theorem typed_initial (htables : p.Tables) (host : σ) : 
    (initial p host : Machine σ ρ).Typed p where
  globals := by
    apply SlotsTyped.foldl _ (slotsTyped_replicate p none)
    intro v hv slots hslots
    by_cases howner : v.owner.isNone = true
    · rw [if_pos howner]
      rcases List.mem_iff_getElem.mp hv with ⟨id, hid, hget⟩
      have hvar : p.variableAt id = v := by
        rw [Program.variableAt, List.getD_eq_getElem?_getD, List.getElem?_eq_getElem hid, hget]
        rfl
      have hdefault := htables.defaults v hv
      rw [← hvar] at howner hdefault ⊢
      exact hslots.set ⟨hid, Option.isNone_iff_eq_none.mp howner, rfl⟩ hdefault
    · rw [if_neg howner]
      exact hslots
  frames := by
    intro frame hframe
    cases hframe
  tasks := TaskList.targets_empty p

end Machine
end Scriptlet
