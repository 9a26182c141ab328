import Scriptlet.Proofs.Evaluation.ActiveOwners
import Scriptlet.Proofs.Evaluation.Walk
import Scriptlet.Proofs.Program.Calls

/-!
# Quiet calls

A call is quiet if neither its function nor any function that the call comes by starts or
awaits a task.  A quiet call of a function that stands in no other does not depend on the
frames below it, nor on tasks: it does the same on any stack, and on none.
-/

namespace Scriptlet

def Mention.Quiet : Mention -> Prop
  | .start _ _ _ => False
  | .await _ => False
  | _ => True

def Program.Quiet (p : Program) (f : FunId) : Prop :=
  forall g, p.Reaches f g -> Admitted Mention.Quiet (p.mentionsOf g)

/-- What is named and called is near, and what is called is quiet. -/
structure Mention.Calm (p : Program) (near : FunId -> Prop) (m : Mention) : Prop
    extends Mention.Near p near m where
  quiet : m.Quiet
  calls : forall {g}, m.callee? = some g -> p.Quiet g

theorem Program.Quiet.calm {p : Program} (hwell : p.WellFormed) (hnested : p.Nested) {f : FunId}
    (h : p.Quiet f) {near : FunId -> Prop} (hnear : forall o, p.Surrounds o f -> near o) :
    Admitted (Mention.Calm p near) (p.mentionsOf f) := by
  intro m hm
  refine ⟨Program.near_body hwell hnested hnear m hm, h f .refl m hm, ?_⟩
  intro g hcallee k hk
  exact h k (Program.Reaches.of_callee hm hcallee hk)

/-!
# One machine on top of another
-/

namespace Machine

variable {σ : Type}

def onto (below m : Machine σ) : Machine σ :=
  { m with frames := m.frames ++ below.frames, tasks := below.tasks }

def Taskless (m : Machine σ) : Prop :=
  forall tasks, tasks ∈ m.sets -> tasks = .empty

variable {p : Program} {below m m' : Machine σ}

theorem onto_forTask (m : Machine σ) : m.onto m.forTask = m :=
  rfl

theorem taskless_forTask (m : Machine σ) : m.forTask.Taskless := by
  intro tasks htasks
  exact List.mem_singleton.mp htasks

theorem Taskless.push (h : m.Taskless) {frame : Frame} (htasks : frame.tasks = .empty) :
    (m.push frame).Taskless := by
  intro tasks hmem
  rcases List.mem_cons.mp hmem with rfl | hmem
  · exact h _ List.mem_cons_self
  · rcases List.mem_cons.mp hmem with rfl | hmem
    · exact htasks
    · exact h tasks (List.mem_cons_of_mem _ hmem)

theorem Taskless.pop (h : m.Taskless) (below : Machine σ) (name : VarId -> String) {f : FunId}
    {owners : List FunId}
    (hm : m.owners = f :: owners) :
    (m.pop name).Taskless ∧ (below.onto m).pop name = below.onto (m.pop name) := by
  rcases m with ⟨host, globals, frames, tasks⟩
  cases frames with
  | nil => cases hm
  | cons frame rest =>
      let under : Machine σ := ⟨host, globals, rest, tasks⟩
      have htasks : frame.tasks = .empty := h frame.tasks (by simp [sets])
      have hpop : pop name (under.push frame) = under := pop_push under name htasks
      have honto : pop name (below.onto (under.push frame)) = below.onto under :=
        pop_push (below.onto under) name htasks
      change (pop name (under.push frame)).Taskless ∧
        pop name (below.onto (under.push frame)) = below.onto (pop name (under.push frame))
      rw [hpop, honto]
      refine ⟨?_, rfl⟩
      intro tasks hmem
      apply h tasks
      rcases List.mem_cons.mp hmem with rfl | hmem
      · exact List.mem_cons_self
      · exact List.mem_cons_of_mem _ (List.mem_cons_of_mem _ hmem)

theorem Taskless.store? (h : m.Taskless) {id : VarId} {v : Value}
    (hstore : m.store? p id v = some m') : m'.Taskless := by
  intro tasks hmem
  rw [sets_store? hstore] at hmem
  exact h tasks hmem

theorem updateFrame_append {o : FunId} (change : Frame -> Frame) {frames : List Frame}
    (ho : o ∈ frames.map (·.owner)) (rest : List Frame) :
    updateFrame o change (frames ++ rest) = (updateFrame o change frames).map (· ++ rest) := by
  induction frames with
  | nil => cases ho
  | cons frame frames ih =>
      rw [List.cons_append, updateFrame, updateFrame]
      by_cases howner : frame.owner = o
      · rw [if_pos howner, if_pos howner]
        rfl
      · rcases List.mem_cons.mp ho with heq | ho
        · exact absurd heq.symm howner
        · rw [if_neg howner, if_neg howner, ih ho, Option.map_map, Option.map_map]
          rfl

section Lookup

variable {id : VarId} (howner : forall o, (p.variableAt id).owner = some o -> o ∈ m.owners)

include howner

theorem read_onto : (below.onto m).read p id = m.read p id := by
  rw [read, read]
  cases hof : (p.variableAt id).owner with
  | none => rfl
  | some o =>
      rcases List.mem_map.mp (howner o hof) with ⟨frame, hframe, heq⟩
      have hfound : (m.frames.find? (·.owner == o)).isSome :=
        List.find?_isSome.mpr ⟨frame, hframe, by simpa using heq⟩
      simp only [frameOf, onto, List.find?_append, Option.or_of_isSome hfound]

theorem store?_onto (v : Value) :
    (below.onto m).store? p id v = (m.store? p id v).map below.onto := by
  rw [store?, store?]
  cases hof : (p.variableAt id).owner with
  | none => rfl
  | some o =>
      have hupdate := updateFrame_append (·.setSlot (p.variableAt id).slot v) (howner o hof)
        below.frames
      simp only [onto, hupdate, Option.map_map]
      rfl

end Lookup
end Machine

/-!
# Calls
-/

/-- The first machine is the second one on top of another, and the second has frames of the
given functions and no tasks. -/
structure Machine.StandsOn {σ : Type} (below : Machine σ) (owners : List FunId) (m t : Machine σ) :
    Prop where
  same : m = below.onto t
  owners : t.owners = owners
  taskless : t.Taskless

abbrev AlikeOn {σ α : Type} (below : Machine σ) (owners : List FunId) (x y : Eval σ α) : Prop :=
  Run.Matches Eq (below.StandsOn owners) False x y

section Calls

variable {σ : Type} {below : Machine σ} {owners : List FunId}

section Variables

variable {p : Program} {id : VarId}
  (howner : forall o, (p.variableAt id).owner = some o -> o ∈ owners)

include howner

theorem alike_readVar (pos : Pos) :
    AlikeOn below owners (Eval.readVar p id pos : Eval σ Value) (Eval.readVar p id pos) := by
  rintro _ t ⟨rfl, rfl, htaskless⟩
  unfold Eval.readVar
  rw [Machine.read_onto howner]
  cases t.read p id with
  | some v => exact .done ⟨rfl, rfl, htaskless⟩
  | none => exact .failed rfl ⟨rfl, rfl, htaskless⟩

theorem alike_writeVar (v : Value) (pos : Pos) :
    AlikeOn below owners (Eval.writeVar p id v pos : Eval σ Unit) (Eval.writeVar p id v pos) := by
  rintro _ t ⟨rfl, rfl, htaskless⟩
  unfold Eval.writeVar
  rw [Machine.store?_onto howner]
  by_cases htype : (p.variableAt id).type = v.type
  · simp only [if_pos htype]
    cases hstore : t.store? p id v with
    | some t' => exact .done ⟨rfl, owners_store? hstore, htaskless.store? hstore⟩
    | none => exact .failed rfl ⟨rfl, rfl, htaskless⟩
  · simp only [if_neg htype]
    exact .failed rfl ⟨rfl, rfl, htaskless⟩

end Variables

theorem alike_native (f : Function) (body : Native σ) (args : List Value) (pos : Pos) :
    AlikeOn below owners (Eval.native f body args pos) (Eval.native f body args pos) := by
  rintro _ t ⟨rfl, rfl, htaskless⟩
  unfold Eval.native
  have hhost : (below.onto t).host = t.host := rfl
  rw [hhost]
  cases body { pos := pos, args := args } t.host with
  | done result host => exact .done ⟨rfl, rfl, htaskless⟩
  | failed text host => exact .failed rfl ⟨rfl, rfl, htaskless⟩
  | unfinished => exact .unfinished

theorem alike_checkResult (f : Function) (pos : Pos) (result : Option Value) :
    AlikeOn below owners (Eval.checkResult f pos result : Eval σ (Option Value))
      (Eval.checkResult f pos result) := by
  unfold Eval.checkResult
  split
  · exact matches_pure _
  · exact matches_fail rfl

theorem alike_inFrame {α : Type} {p : Program} {frame : Frame} (htasks : frame.tasks = .empty)
    {body : Eval σ α} (h : AlikeOn below (frame.owner :: owners) body body) :
    AlikeOn below owners (Eval.inFrame p frame body) (Eval.inFrame p frame body) := by
  apply Run.Matches.around h
  · rintro _ t ⟨rfl, rfl, htaskless⟩
    exact ⟨rfl, rfl, htaskless.push htasks⟩
  · rintro _ t ⟨rfl, howners, htaskless⟩
    have hpop := htaskless.pop below (Eval.variableName p) howners
    exact ⟨hpop.2, owners_pop _ howners, hpop.1⟩

def CallsAlike (l : Loaded σ) (fuel : Nat) : Prop :=
  forall below owners f values pos, l.program.Quiet f ->
    (forall o, l.program.Encloses o f -> o ∈ owners) ->
    AlikeOn below owners (l.invoke fuel f values pos) (l.invoke fuel f values pos)

theorem alike_actions {l : Loaded σ} {fuel : Nat} (hcalls : CallsAlike l fuel) (below : Machine σ)
    (owners : List FunId) :
    (Actions.plain l.program (l.invoke fuel)).Match (Mention.Calm l.program (· ∈ owners)) Eq
      (below.StandsOn owners) False (Actions.plain l.program (l.invoke fuel)) where
  raise := fun _ => matches_fail rfl
  reads := fun pos hcalm => alike_readVar (fun _ => hcalm.owner rfl) pos
  writes := fun v pos hcalm hstored =>
    alike_writeVar (fun _ => hcalm.owner (Mention.variable?_of_stored hstored)) v pos
  calls := fun values pos hcalm =>
    hcalls below owners _ values pos (hcalm.calls rfl) fun _ => hcalm.callee rfl
  starts := fun _ _ hcalm => hcalm.quiet.elim
  awaits := fun _ hcalm => hcalm.quiet.elim
  exhausted := fun _ _ _ => .unfinished

variable {l : Loaded σ} (hwell : l.program.WellFormed) (hnested : l.program.Nested)

include hwell hnested

theorem callsAlike_invoke (fuel : Nat) : CallsAlike l fuel := by
  -- By induction on the fuel: the frame of a call goes on top of both machines.
  induction fuel with
  | zero => exact fun _ _ _ _ _ _ _ _ _ _ => .unfinished
  | succ fuel ih =>
      intro below owners f values pos hquiet hnear
      unfold Loaded.invoke
      cases hbody : (l.program.function f).body with
      | none =>
          simp only [hbody]
          apply (alike_native _ _ values pos).bind
          intro result
          split
          · exact matches_pure _
          · exact alike_checkResult _ pos result
      | some block =>
          simp only [hbody]
          have hinside : forall o, l.program.Surrounds o f -> o ∈ f :: owners := by
            intro o ho
            rcases ho.eq_or_encloses with rfl | hencloses
            · exact List.mem_cons_self
            · exact List.mem_cons_of_mem _ (hnear o hencloses)
          have hadmits := hquiet.calm hwell hnested hinside
          rw [Program.mentionsOf_of_body hbody] at hadmits
          have hstmts := matches_stmts (p := l.program) (alike_actions ih below (f :: owners)) fuel
            block.body hadmits
          rw [walk_stmts_plain] at hstmts
          apply (alike_inFrame rfl hstmts).bind
          intro flow
          exact alike_checkResult _ pos _

/-- A quiet call of a function that stands in no other does as a task what it does at once. -/
theorem invoke_eq_forTask {fuel : Nat} {f : FunId} (hf : l.program.Outermost f)
    (hquiet : l.program.Quiet f) (values : List Value) (pos : Pos) (m : Machine σ) :
    l.invoke fuel f values pos m = (l.invoke fuel f values pos m.forTask).mapState m.afterTask := by
  have hnone : forall o, l.program.Encloses o f -> o ∈ [] :=
    fun o ho => absurd ho (hf.not_encloses o)
  have hcall := callsAlike_invoke hwell hnested fuel m [] f values pos hquiet hnone m m.forTask
    ⟨m.onto_forTask.symm, rfl, m.taskless_forTask⟩
  have hafter : forall m' t, m.StandsOn [] m' t -> m' = m.afterTask t := by
    rintro _ t ⟨rfl, howners, -⟩
    rw [Machine.onto, List.map_eq_nil_iff.mp howners]
    rfl
  generalize l.invoke fuel f values pos m = first at hcall
  generalize l.invoke fuel f values pos m.forTask = second at hcall
  cases hcall with
  | done hstands => exact congrArg (Outcome.done _) (hafter _ _ hstands)
  | failed he hstands =>
      subst he
      exact congrArg (Outcome.failed _) (hafter _ _ hstands)
  | unfinished => rfl
  | cut hnever => exact hnever.elim

end Calls
end Scriptlet
