import Scriptlet.Proofs.Evaluation.Preservation

/-!
# Shapes of machines

Whatever is executed, no slot is ever added or taken away: the globals have a slot for each
global variable, and each frame has one for each variable of its function.  So what was
stored for a variable is read back.
-/

namespace Scriptlet

structure Machine.Shaped {σ : Type} (p : Program) (m : Machine σ) : Prop where
  globals : m.globals.length = p.globalCount
  frames : forall frame, frame ∈ m.frames -> frame.IsOf p frame.owner

section Changes

variable {σ : Type} {p : Program} {m m' : Machine σ}

theorem Machine.Typed.shaped (h : m.Typed p) : m.Shaped p where
  globals := h.globals.length
  frames := fun frame hframe => ⟨rfl, (h.frames frame hframe).slots.length⟩

namespace Machine

theorem Shaped.host (h : m.Shaped p) (host : σ) : Shaped p { m with host := host } :=
  ⟨h.globals, h.frames⟩

theorem Shaped.forTask (h : m.Shaped p) : m.forTask.Shaped p :=
  ⟨h.globals, fun _ hframe => nomatch hframe⟩

theorem Shaped.afterTask (h : m.Shaped p) {task : Machine σ} (htask : task.Shaped p) :
    (m.afterTask task).Shaped p :=
  ⟨htask.globals, h.frames⟩

theorem Shaped.push (h : m.Shaped p) {frame : Frame} (hframe : frame.IsOf p frame.owner) :
    (m.push frame).Shaped p :=
  ⟨h.globals, List.forall_mem_cons.mpr ⟨hframe, h.frames⟩⟩

theorem Shaped.call (h : m.Shaped p) (htables : p.Tables) (f : FunId) (values : List Value) :
    (m.push (Eval.callFrame p f values)).Shaped p :=
  h.push (holds_callFrame (f := f) htables values).1

theorem Shaped.pop (h : m.Shaped p) (name : VarId -> String) : (m.pop name).Shaped p := by
  unfold Machine.pop
  cases hframes : m.frames with
  | nil => exact h
  | cons frame rest =>
      have hall := h.frames
      rw [hframes] at hall
      exact ⟨h.globals, (List.forall_mem_cons.mp hall).2⟩

theorem Shaped.store? (h : m.Shaped p) {id : VarId} {v : Value}
    (hstore : m.store? p id v = some m') : m'.Shaped p := by
  rw [Machine.store?] at hstore
  cases howner : (p.variableAt id).owner with
  | none =>
      rw [howner] at hstore
      cases hstore
      exact ⟨List.length_set.trans h.globals, h.frames⟩
  | some f =>
      rw [howner] at hstore
      rcases Option.map_eq_some_iff.mp hstore with ⟨frames, hframes, rfl⟩
      exact ⟨h.globals, forall_updateFrame (fun _ _ hframe => hframe.setSlot _ v) h.frames hframes⟩

theorem Shaped.updateTasks? (h : m.Shaped p) {id : VarId} {change : TaskList -> TaskList}
    (hupdate : m.updateTasks? p id change = some m') : m'.Shaped p := by
  rw [Machine.updateTasks?] at hupdate
  cases howner : (p.variableAt id).owner with
  | none =>
      rw [howner] at hupdate
      cases hupdate
      exact ⟨h.globals, h.frames⟩
  | some f =>
      rw [howner] at hupdate
      rcases Option.map_eq_some_iff.mp hupdate with ⟨frames, hframes, rfl⟩
      have hkept : forall frame : Frame, frame.owner = f -> frame.IsOf p frame.owner ->
          (frame.mapTasks change).IsOf p (frame.mapTasks change).owner :=
        fun _ _ hframe => ⟨rfl, hframe.slots⟩
      exact ⟨h.globals, forall_updateFrame hkept h.frames hframes⟩

theorem Shaped.read_store? (h : m.Shaped p) (htables : p.Tables) {id : VarId}
    (hid : id < p.vars.length) {v : Value} (hstore : m.store? p id v = some m') :
    m'.read p id = some v := by
  rw [Machine.store?] at hstore
  simp only [Machine.read]
  cases howner : (p.variableAt id).owner with
  | none =>
      rw [howner] at hstore
      cases hstore
      have hslot := htables.slot_lt hid
      rw [howner] at hslot
      have hlt : (p.variableAt id).slot < m.globals.length := h.globals.symm ▸ hslot
      simp [Machine.global, List.getD_eq_getElem?_getD, hlt]
  | some f =>
      rw [howner] at hstore
      rcases Option.map_eq_some_iff.mp hstore with ⟨frames, hframes, rfl⟩
      have hfind := find?_updateFrame hframes fun _ => rfl
      cases hframe : m.frames.find? (·.owner == f) with
      | none =>
          rw [updateFrame_eq_none hframe] at hframes
          cases hframes
      | some frame =>
          have hmem : frame ∈ m.frames := List.mem_of_find?_eq_some hframe
          have hof : frame.owner = f := by simpa using List.find?_some hframe
          have hlt := (h.frames frame hmem).slot_lt htables (howner.trans (congrArg some hof.symm))
          rw [hframe] at hfind
          simp only [Machine.frameOf, hfind, Option.map_some, Option.bind_some]
          rw [frame.slot_setSlot _ _ v hlt, if_pos rfl]

end Machine
end Changes

/-!
# Execution
-/

section Execution

variable {σ : Type}

theorem shaped_invariant {p : Program} {invoke : Invoke σ}
    (hcalls : forall f values pos, KeepsAll (Machine.Shaped p) (invoke f values pos)) :
    Invariant p invoke (fun _ => True) (Machine.Shaped p) where
  stores := fun _ _ _ hm hstore => hm.store? hstore
  starts := fun _ _ hm hupdate => hm.updateTasks? hupdate
  awaits := fun _ hm hupdate => hm.updateTasks? hupdate
  calls := fun _ _ => hcalls _ _ _
  tasks := fun _ _ =>
    keeps_asTask (fun _ hm => hm.forTask) (fun _ _ hm htask => hm.afterTask htask) (hcalls _ _ _)

variable {l : Loaded σ} (htables : l.program.Tables)

include htables

theorem keepsShaped_invoke (fuel : Nat) : forall f values pos,
    KeepsAll (Machine.Shaped l.program) (l.invoke fuel f values pos) := by
  induction fuel with
  | zero => exact fun _ _ _ _ _ => trivial
  | succ fuel ih =>
      intro f values pos
      apply keeps_invoke (fun _ host hm => hm.host host)
      intro block _
      exact keeps_inFrame (fun _ hm => hm.call htables f values) (fun _ hm => hm.pop _)
        (keeps_stmts (shaped_invariant ih) fuel block.body fun _ _ => trivial)

theorem invariant_shaped (fuel : Nat) :
    Invariant l.program (l.invoke fuel) (fun _ => True) (Machine.Shaped l.program) :=
  shaped_invariant (keepsShaped_invoke htables fuel)

end Execution
end Scriptlet
