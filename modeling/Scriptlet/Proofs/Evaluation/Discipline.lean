import Scriptlet.Proofs.Evaluation.Sessions
import Scriptlet.Proofs.Program.Nesting

/-!
# Calls leave the frames below alone

A variable of a function lives in the innermost frame of its owner, so a call could reach
any frame of the stack.  It reaches those only that belong to functions around its callee:
whatever else is named in the body, or in the bodies that it calls, has a frame that was
pushed since.  A call of a function that stands in no other leaves the stack as it was,
however it ends.
-/

namespace Scriptlet

/-- The frame is the same one, unless its function encloses the given one. -/
structure Frame.Spared (p : Program) (f : FunId) (a b : Frame) : Prop where
  owner : b.owner = a.owner
  same : ¬p.Encloses a.owner f -> b = a

/-- The frames that were pushed above a stack belong to the given functions, and the stack
is left alone but for functions around `f`. -/
inductive Stacked (p : Program) (f : FunId) (stack : List Frame) :
    List FunId -> List Frame -> Prop where
  | none {frames : List Frame} : List.Forall₂ (Frame.Spared p f) stack frames ->
      Stacked p f stack [] frames
  | push {pushed : List FunId} {frame : Frame} {frames : List Frame} :
      Stacked p f stack pushed frames ->
      Stacked p f stack (frame.owner :: pushed) (frame :: frames)

def Program.AtHand (p : Program) (f : FunId) (pushed : List FunId) (o : FunId) : Prop :=
  o ∈ pushed ∨ p.Encloses o f

section Stacked

variable {p : Program} {f : FunId} {stack : List Frame} {pushed : List FunId}

theorem Frame.Spared.refl (frame : Frame) : frame.Spared p f frame :=
  ⟨rfl, fun _ => rfl⟩

theorem Frame.Spared.trans {a b c : Frame} (h : a.Spared p f b) (h' : b.Spared p f c) :
    a.Spared p f c where
  owner := h'.owner.trans h.owner
  same := by
    intro hfree
    have hsame := h.same hfree
    exact (h'.same (hsame ▸ hfree)).trans hsame

theorem stacked_refl (frames : List Frame) : Stacked p f frames [] frames :=
  .none (List.forall₂_same.mpr fun frame _ => .refl frame)

theorem Stacked.updateFrame {frames frames' : List Frame} (h : Stacked p f stack pushed frames)
    {o : FunId} (ho : p.AtHand f pushed o) {change : Frame -> Frame}
    (hupdate : Machine.updateFrame o change frames = some frames')
    (hchange : forall frame, (change frame).owner = frame.owner) :
    Stacked p f stack pushed frames' := by
  induction h generalizing frames' with
  | none hbelow =>
      have hencloses : p.Encloses o f := by
        rcases ho with hnone | hencloses
        · cases hnone
        · exact hencloses
      refine .none (forall₂_trans (fun _ _ _ => .trans) hbelow ?_)
      apply forall₂_updateFrame Frame.Spared.refl _ hupdate
      intro frame howner
      exact ⟨hchange frame, fun hfree => absurd (howner ▸ hencloses) hfree⟩
  | @push pushed frame frames hframes ih =>
      rw [Machine.updateFrame] at hupdate
      by_cases howner : frame.owner = o
      · rw [if_pos howner] at hupdate
        cases hupdate
        rw [← hchange frame]
        exact .push hframes
      · rw [if_neg howner] at hupdate
        rcases Option.map_eq_some_iff.mp hupdate with ⟨rest, hrest, hcons⟩
        cases hcons
        refine .push (ih ?_ hrest)
        rcases ho with hmem | hencloses
        · rcases List.mem_cons.mp hmem with heq | hmem
          · exact absurd heq.symm howner
          · exact .inl hmem
        · exact .inr hencloses

theorem eq_of_spared (hf : forall o, ¬p.Encloses o f) {frames frames' : List Frame}
    (h : List.Forall₂ (Frame.Spared p f) frames frames') : frames' = frames := by
  induction h with
  | nil => rfl
  | cons hfirst _ ih => rw [hfirst.same (hf _), ih]

end Stacked

/-!
# Trees and calls
-/

section Calls

variable {σ : Type}

def CallsSpareFrames (p : Program) (invoke : Invoke σ) : Prop :=
  forall f stack pushed g values pos, (forall o, p.Encloses o g -> p.AtHand f pushed o) ->
    KeepsAll (fun m : Machine σ => Stacked p f stack pushed m.frames) (invoke g values pos)

theorem stacked_invariant {p : Program} {invoke : Invoke σ} (h : CallsSpareFrames p invoke)
    (f : FunId) (stack : List Frame) (pushed : List FunId) :
    Invariant p invoke (Mention.Near p (p.AtHand f pushed))
      fun m : Machine σ => Stacked p f stack pushed m.frames where
  stores := by
    intro mention id v m m' hmention hstored _ hm hstore
    rcases Machine.frames_store? hstore with hsame | ⟨o, howner, hupdate⟩
    · rw [hsame]
      exact hm
    · have ho := hmention.owner (Mention.variable?_of_stored hstored) howner
      exact hm.updateFrame ho hupdate fun _ => rfl
  starts := by
    intro target g arity task m m' hmention _ hm hupdate
    rcases Machine.frames_updateTasks? hupdate with hsame | ⟨o, howner, hupdate⟩
    · rw [hsame]
      exact hm
    · exact hm.updateFrame (hmention.owner rfl howner) hupdate fun _ => rfl
  awaits := by
    intro target m m' hmention hm hupdate
    rcases Machine.frames_updateTasks? hupdate with hsame | ⟨o, howner, hupdate⟩
    · rw [hsame]
      exact hm
    · exact hm.updateFrame (hmention.owner rfl howner) hupdate fun _ => rfl
  calls := by
    intro g arity values pos hmention _
    exact h f stack pushed g values pos fun o ho => hmention.callee rfl ho
  tasks := by
    intro target g arity values pos _ _
    have hany : KeepsAll (fun _ : Machine σ => True) (invoke g values pos) := by
      intro m _
      cases invoke g values pos m <;> trivial
    -- The machine of a task has frames of its own.
    exact keeps_asTask (fun _ _ => trivial) (fun _ _ hm _ => hm) hany

variable {l : Loaded σ} (hwell : l.program.WellFormed) (hnested : l.program.Nested)

include hwell hnested

theorem callsSpareFrames_invoke (fuel : Nat) : CallsSpareFrames l.program (l.invoke fuel) := by
  -- By induction on the fuel: a call pushes one frame, runs a body whose calls have less fuel, and
  -- pops the frame.
  induction fuel with
  | zero => exact fun _ _ _ _ _ _ _ _ _ => trivial
  | succ fuel ih =>
      intro f stack pushed g values pos hg
      apply keeps_invoke
      · exact fun _ _ hm => hm
      · intro block hblock
        have hinside : forall o, l.program.Surrounds o g ->
            l.program.AtHand f (g :: pushed) o := by
          intro o ho
          rcases ho.eq_or_encloses with rfl | hencloses
          · exact .inl List.mem_cons_self
          · rcases hg o hencloses with hmem | hencloses
            · exact .inl (List.mem_cons_of_mem g hmem)
            · exact .inr hencloses
        have hadmits := Program.near_body hwell hnested hinside
        rw [Program.mentionsOf_of_body hblock] at hadmits
        have hbody := keeps_stmts (stacked_invariant ih f stack (g :: pushed)) fuel _ hadmits
        apply keeps_inFrame _ _ hbody
        · intro m hm
          let frame : Frame := Eval.callFrame l.program g values
          show Stacked l.program f stack (frame.owner :: pushed) _
          exact .push hm
        · intro m hm
          cases hframes : m.frames with
          | nil =>
              rw [hframes] at hm
              cases hm
          | cons frame rest =>
              rw [hframes] at hm
              cases hm with
              | push hrest =>
                  rw [Machine.pop, hframes]
                  exact hrest

/-- However a call ends, no frame is changed but those of functions around its callee. -/
theorem spared_of_invoke {fuel : Nat} {f : FunId} {values : List Value} {pos : Pos}
    {m m' : Machine σ} (hend : (l.invoke fuel f values pos m).state? = some m') :
    List.Forall₂ (Frame.Spared l.program f) m.frames m'.frames := by
  have hcall := callsSpareFrames_invoke hwell hnested fuel f m.frames [] f values pos
    fun o ho => .inr ho
  have hstacked := hcall.of_state (stacked_refl m.frames) hend
  cases hstacked with
  | none h => exact h

theorem keepsFrames_invoke (fuel : Nat) {f : FunId} (hf : forall o, ¬l.program.Encloses o f)
    (values : List Value) (pos : Pos) (stack : List Frame) :
    KeepsAll (fun m => m.frames = stack) (l.invoke fuel f values pos) := by
  apply keepsAll_of_state
  intro m m' hm hend
  rw [← hm]
  exact eq_of_spared hf (spared_of_invoke hwell hnested hend)

end Calls

/-!
# Sessions
-/

section Sessions

variable {σ : Type} {l : Loaded σ} (hwell : l.program.WellFormed)

include hwell

theorem frames_invariant (hnested : l.program.Nested) (fuel : Nat) (stack : List Frame) :
    Invariant l.program (l.invoke fuel) (Mention.Near l.program fun _ => False)
      fun m => m.frames = stack where
  stores := by
    intro mention id v m m' hmention hstored _ hm hstore
    rcases Machine.frames_store? hstore with hsame | ⟨o, howner, -⟩
    · exact hsame.trans hm
    · exact (hmention.owner (Mention.variable?_of_stored hstored) howner).elim
  starts := by
    intro target f arity task m m' hmention _ hm hupdate
    rcases Machine.frames_updateTasks? hupdate with hsame | ⟨o, howner, -⟩
    · exact hsame.trans hm
    · exact (hmention.owner rfl howner).elim
  awaits := by
    intro target m m' hmention hm hupdate
    rcases Machine.frames_updateTasks? hupdate with hsame | ⟨o, howner, -⟩
    · exact hsame.trans hm
    · exact (hmention.owner rfl howner).elim
  calls := by
    intro f arity values pos hmention _
    exact keepsFrames_invoke hwell hnested fuel (fun _ => hmention.callee rfl) values pos stack
  tasks := by
    intro target f arity values pos hmention _
    have hcall := keepsFrames_invoke hwell hnested fuel (fun _ => hmention.callee rfl) values pos []
    exact keeps_asTask (fun _ _ => rfl) (fun _ _ hm _ => hm) hcall

variable (hnested : l.program.WellNested)

include hnested

theorem keepsFrames_run (fuel : Nat) (stack : List Frame) :
    KeepsAll (fun m => m.frames = stack) (l.run fuel) := by
  have hroot := Program.near_root hwell hnested fun _ => False
  apply (keeps_stmts (frames_invariant hwell hnested.nested fuel stack) fuel _ hroot).bind
  intro flow _ m hm
  exact ⟨trivial, hm⟩

theorem keepsFrames_callFunction (fuel : Nat) {f : FunId} (hf : .function f ∈ l.program.globals)
    (args : List Value) (stack : List Frame) :
    KeepsAll (fun m => m.frames = stack) (l.callFunction fuel f args) := by
  apply Keeps.ite
  · intro _
    exact keeps_failAt _ _
  · intro _
    apply (keeps_checkArguments f _ _ args).bind
    intro _ _
    have houtermost := (hnested.globals hf).not_encloses
    exact keepsFrames_invoke hwell hnested.nested fuel houtermost args _ stack

theorem frames_between {host : σ} {m : Machine σ} (hm : l.Between host m) : m.frames = [] := by
  induction hm with
  | start => rfl
  | run fuel _ hrun ih => exact (keepsFrames_run hwell hnested fuel []).of_state ih hrun
  | call fuel args _ hglobal hcall ih =>
      exact (keepsFrames_callFunction hwell hnested fuel hglobal args []).of_state ih hcall

end Sessions

end Scriptlet
