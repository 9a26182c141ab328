import Mathlib.Data.List.Forall2
import Scriptlet.Proofs.Evaluation.Preservation
import Scriptlet.Proofs.Program.Calls

/-!
# Variables that calls leave alone

A call leaves a variable unchanged if no function that it comes by stores into the
variable.  The owner of the variable may do so: it stores into the frame of its own call,
which lies above all frames that were there before.
-/

namespace Scriptlet

def Program.Spares (p : Program) (id : VarId) (f : FunId) : Prop :=
  forall g, p.Reaches f g -> forall m, m ∈ p.mentionsOf g -> m.stored? = some id ->
    (p.variableAt id).owner = some g

/-- Nothing is stored into the variable, unless that is allowed, and no callee stores into
it. -/
structure Mention.Spares (p : Program) (id : VarId) (own : Prop) (m : Mention) : Prop where
  fits : m.FitsSomewhere p
  stores : m.stored? = some id -> own
  calls : forall f, m.callee? = some f -> p.Spares id f

/-!
# What stays the same
-/

/-- The frame is one of the same function and has the same value of the variable. -/
structure Frame.SameAt (p : Program) (id : VarId) (a b : Frame) : Prop where
  owner : b.owner = a.owner
  slot : (p.variableAt id).owner = some a.owner ->
    b.slot (p.variableAt id).slot = a.slot (p.variableAt id).slot

/-- The variable has the same value in the globals, or in every frame of its owner. -/
structure Machine.SameAt {σ : Type} (p : Program) (id : VarId) (m m' : Machine σ) : Prop where
  global : (p.variableAt id).owner = none ->
    m'.global (p.variableAt id).slot = m.global (p.variableAt id).slot
  frames : List.Forall₂ (Frame.SameAt p id) m.frames m'.frames

section SameAt

variable {σ : Type} {p : Program} {id : VarId}

theorem Frame.SameAt.refl (frame : Frame) : frame.SameAt p id frame :=
  ⟨rfl, fun _ => rfl⟩

theorem Frame.SameAt.trans {a b c : Frame} (h : a.SameAt p id b) (h' : b.SameAt p id c) :
    a.SameAt p id c where
  owner := h'.owner.trans h.owner
  slot := fun howner => (h'.slot (h.owner.symm ▸ howner)).trans (h.slot howner)

theorem sameAt_frames (frames : List Frame) : List.Forall₂ (Frame.SameAt p id) frames frames :=
  List.forall₂_same.mpr fun frame _ => .refl frame

theorem sameAt_head {frames frames' : List Frame}
    (h : List.Forall₂ (Frame.SameAt p id) frames frames') :
    frames'.head?.map (·.owner) = frames.head?.map (·.owner) := by
  cases h with
  | nil => rfl
  | cons hfirst _ => exact congrArg some hfirst.owner

theorem sameAt_tail {frames frames' : List Frame}
    (h : List.Forall₂ (Frame.SameAt p id) frames frames') :
    List.Forall₂ (Frame.SameAt p id) frames.tail frames'.tail := by
  cases h with
  | nil => exact .nil
  | cons _ hrest => exact hrest

namespace Machine

variable {m m' m'' : Machine σ}

theorem SameAt.refl (m : Machine σ) : m.SameAt p id m :=
  ⟨fun _ => rfl, sameAt_frames m.frames⟩

theorem SameAt.trans (h : m.SameAt p id m') (h' : m'.SameAt p id m'') : m.SameAt p id m'' where
  global := fun howner => (h'.global howner).trans (h.global howner)
  frames := forall₂_trans (fun _ _ _ => .trans) h.frames h'.frames

theorem SameAt.host (h : m.SameAt p id m') (host : σ) :
    m.SameAt p id { m' with host := host } :=
  ⟨h.global, h.frames⟩

theorem SameAt.read (h : m.SameAt p id m') : m'.read p id = m.read p id := by
  simp only [Machine.read]
  cases howner : (p.variableAt id).owner with
  | none => exact h.global howner
  | some f =>
      simp only [frameOf]
      have hframes := h.frames
      generalize m.frames = frames at hframes
      generalize m'.frames = frames' at hframes
      induction hframes with
      | nil => rfl
      | @cons a b as bs hfirst _ ih =>
          rw [List.find?_cons, List.find?_cons, hfirst.owner]
          cases hf : a.owner == f with
          | true =>
              have hof : a.owner = f := by simpa using hf
              exact hfirst.slot (hof ▸ howner)
          | false => exact ih

theorem SameAt.updateTasks? {target : VarId} {g : TaskList -> TaskList}
    (h : m.updateTasks? p target g = some m') : m.SameAt p id m' := by
  rw [Machine.updateTasks?] at h
  cases howner : (p.variableAt target).owner with
  | none =>
      rw [howner] at h
      cases h
      exact ⟨fun _ => rfl, sameAt_frames m.frames⟩
  | some f =>
      rw [howner] at h
      rcases Option.map_eq_some_iff.mp h with ⟨frames, hframes, hm'⟩
      cases hm'
      refine ⟨fun _ => rfl, forall₂_updateFrame Frame.SameAt.refl ?_ hframes⟩
      intro frame _
      exact ⟨rfl, fun _ => rfl⟩

theorem SameAt.store? (htables : p.Tables) (hid : id < p.vars.length) {other : VarId}
    (hother : other < p.vars.length) (hne : other ≠ id) {v : Value}
    (h : m.store? p other v = some m') : m.SameAt p id m' := by
  have hslots : (p.variableAt other).owner = (p.variableAt id).owner ->
      (p.variableAt other).slot ≠ (p.variableAt id).slot :=
    fun howner hslot => hne (htables.slot_unique hother hid howner hslot)
  rw [Machine.store?] at h
  cases howner : (p.variableAt other).owner with
  | none =>
      rw [howner] at h hslots
      cases h
      refine ⟨?_, sameAt_frames m.frames⟩
      intro hglobal
      simp only [Machine.global, List.getD_eq_getElem?_getD]
      rw [List.getElem?_set_ne (hslots hglobal.symm)]
  | some f =>
      rw [howner] at h hslots
      rcases Option.map_eq_some_iff.mp h with ⟨frames, hframes, hm'⟩
      cases hm'
      refine ⟨fun _ => rfl, forall₂_updateFrame Frame.SameAt.refl ?_ hframes⟩
      intro frame hframe
      refine ⟨rfl, ?_⟩
      intro hof
      simp only [Frame.slot, Frame.setSlot, List.getD_eq_getElem?_getD]
      rw [List.getElem?_set_ne (hslots (hframe ▸ hof.symm))]

end Machine
end SameAt

/-!
# Inside a call
-/

def Machine.below {σ : Type} (m : Machine σ) : Machine σ :=
  { m with frames := m.frames.tail }

/-- A call of the function is open, and below its frame the variable is the same. -/
structure Machine.InCall {σ : Type} (p : Program) (id : VarId) (f : FunId) (start m : Machine σ) :
    Prop where
  top : m.frames.head?.map (·.owner) = some f
  below : start.SameAt p id m.below

section InCall

variable {σ : Type} {p : Program} {id : VarId} {f : FunId} {start m m' : Machine σ}

theorem Machine.InCall.sameAt (hm : Machine.InCall p id f start m) (h : m.SameAt p id m') :
    Machine.InCall p id f start m' where
  top := (sameAt_head h.frames).trans hm.top
  below := hm.below.trans ⟨h.global, sameAt_tail h.frames⟩

theorem Machine.InCall.store? (hm : Machine.InCall p id f start m)
    (howner : (p.variableAt id).owner = some f) {v : Value} (h : m.store? p id v = some m') :
    Machine.InCall p id f start m' := by
  rcases hm with ⟨htop, hbelow⟩
  rw [Machine.store?, howner] at h
  cases hframes : m.frames with
  | nil =>
      rw [hframes] at htop
      cases htop
  | cons frame rest =>
      rw [hframes] at htop
      have hof : frame.owner = f := Option.some.inj htop
      simp only [hframes, Machine.updateFrame, hof, if_true, Option.map_some,
        Option.some.injEq] at h
      rw [← h]
      refine ⟨congrArg some hof, ?_⟩
      rw [Machine.below, hframes] at hbelow
      exact hbelow

end InCall

/-!
# Calls and statements
-/

section Calls

variable {σ : Type} {p : Program} {id : VarId}

theorem keeps_of_sameAt {inv : Machine σ -> Prop}
    (htrans : forall m m', inv m -> m.SameAt p id m' -> inv m') {α : Type} {x : Eval σ α}
    (hx : forall start : Machine σ, KeepsAll (start.SameAt p id) x) : KeepsAll inv x := by
  intro m hm
  have hsame := hx m m (.refl m)
  cases houtcome : x m with
  | done a m' =>
      rw [houtcome] at hsame
      exact ⟨trivial, htrans m m' hm hsame.2⟩
  | failed e m' =>
      rw [houtcome] at hsame
      exact htrans m m' hm hsame
  | unfinished => trivial

def CallsSpare (p : Program) (id : VarId) (invoke : Invoke σ) : Prop :=
  forall f, p.Spares id f -> forall values pos (start : Machine σ),
    KeepsAll (start.SameAt p id) (invoke f values pos)

theorem spares_invariant (htables : p.Tables) (hid : id < p.vars.length) {invoke : Invoke σ}
    (hcalls : CallsSpare p id invoke) {own : Prop} {inv : Machine σ -> Prop}
    (htrans : forall m m', inv m -> m.SameAt p id m' -> inv m')
    (hown : own -> forall m m' v, inv m -> m.store? p id v = some m' -> inv m') :
    Invariant p invoke (Mention.Spares p id own) inv where
  stores := by
    intro mention other v m m' hspares hstored _ hm hstore
    by_cases hsame : other = id
    · rw [hsame] at hstored hstore
      exact hown (hspares.stores hstored) m m' v hm hstore
    · have hother := Program.lt_of_stored hspares.fits hstored
      exact htrans m m' hm (.store? htables hid hother hsame hstore)
  starts := by
    intro target f arity task m m' _ _ hm hupdate
    exact htrans m m' hm (.updateTasks? hupdate)
  awaits := by
    intro target m m' _ hm hupdate
    exact htrans m m' hm (.updateTasks? hupdate)
  calls := by
    intro f arity values pos hspares _
    exact keeps_of_sameAt htrans (hcalls f (hspares.calls f rfl) values pos)
  tasks := by
    intro target f arity values pos hspares _
    have hcall := hcalls f (hspares.calls f rfl) values pos
    apply keeps_of_sameAt htrans
    intro start
    apply keeps_asTask _ _ (hcall start.forTask)
    · intro m hm
      exact ⟨hm.global, .nil⟩
    · intro m task hm htask
      exact ⟨htask.global, hm.frames⟩

variable {l : Loaded σ} (hwell : l.program.WellFormed) (hid : id < l.program.vars.length)

include hwell hid

theorem callsSpare_invoke (fuel : Nat) : CallsSpare l.program id (l.invoke fuel) := by
  -- By induction on the fuel.  The body of a call stores into the variable only if the variable is
  -- one of its own function.
  induction fuel with
  | zero => exact fun _ _ _ _ _ _ _ => trivial
  | succ fuel ih =>
      intro f hspares values pos start
      apply keeps_invoke
      · intro m host hm
        exact hm.host host
      · intro block hblock
        have hmentions := Program.mentionsOf_of_body hblock
        have hfit := (hwell.body hblock).2
        have hadmits : Admitted
            (Mention.Spares l.program id ((l.program.variableAt id).owner = some f))
            (Stmt.listMentions block.body) := by
          intro m hm
          refine ⟨hfit m hm, ?_, ?_⟩
          · intro hstored
            exact hspares f .refl m (hmentions ▸ hm) hstored
          · intro g hcallee h hreaches
            exact hspares h (.of_callee (hmentions ▸ hm) hcallee hreaches)
        have hinvariant : Invariant l.program (l.invoke fuel) _
            (Machine.InCall l.program id f start) :=
          spares_invariant hwell.tables hid ih (fun _ _ hm hsame => hm.sameAt hsame)
            fun howner _ _ _ hm hstore => hm.store? howner hstore
        apply keeps_inFrame _ _ (keeps_stmts hinvariant fuel block.body hadmits)
        · intro m hm
          exact ⟨rfl, hm⟩
        · intro m hm
          have hbelow := hm.below
          have htop := hm.top
          cases hframes : m.frames with
          | nil =>
              rw [hframes] at htop
              cases htop
          | cons frame rest =>
              rw [Machine.below, hframes] at hbelow
              rw [Machine.pop, hframes]
              exact ⟨hbelow.global, hbelow.frames⟩

/-- However a call ends, it leaves a variable unchanged if none of the functions that it
comes by stores into the variable of another one. -/
theorem keepsRead_invoke (fuel : Nat) {f : FunId} (hspares : l.program.Spares id f)
    (values : List Value) (pos : Pos) (v : Option Value) :
    KeepsAll (fun m => m.read l.program id = v) (l.invoke fuel f values pos) :=
  keeps_of_sameAt (fun _ _ hm hsame => hsame.read.trans hm)
    (callsSpare_invoke hwell hid fuel f hspares values pos)

theorem invariant_read (fuel : Nat) (v : Option Value) :
    Invariant l.program (l.invoke fuel) (Mention.Spares l.program id False)
      fun m => m.read l.program id = v :=
  spares_invariant hwell.tables hid (callsSpare_invoke hwell hid fuel)
    (fun _ _ hm hsame => hsame.read.trans hm) fun hown => hown.elim

end Calls
end Scriptlet
