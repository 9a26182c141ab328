import Scriptlet.Proofs.Evaluation.Walk

/-!
# Invariants of execution

A property of machines that is kept by each single change, as far as the changes are those
that a tree mentions, is kept by executing the tree, also where that ends with an error.
-/

namespace Scriptlet

variable {ρ : Type}

section Rules

variable {σ α β : Type} {inv : Machine σ ρ -> Prop}

def Keeps (inv : Machine σ ρ -> Prop) (x : EvalOf ρ σ α) (good : α -> Prop) : Prop :=
  forall m, inv m -> (x m).Satisfies (fun a m' => good a ∧ inv m') inv

abbrev KeepsAll (inv : Machine σ ρ -> Prop) (x : EvalOf ρ σ α) : Prop :=
  Keeps inv x fun _ => True

variable {good : α -> Prop} {next : β -> Prop}

theorem keeps_pure {a : α} (ha : good a) : Keeps inv (pure a : EvalOf ρ σ α) good :=
  fun _ hm => ⟨ha, hm⟩

theorem Keeps.bind {x : EvalOf ρ σ α} {f : α -> EvalOf ρ σ β} (hx : Keeps inv x good)
    (hf : forall a, good a -> Keeps inv (f a) next) : Keeps inv (x >>= f) next := by
  intro m hm
  have hm' := hx m hm
  rw [Run.bind_apply]
  cases houtcome : x m with
  | done a m' =>
      rw [houtcome] at hm'
      exact hf a hm'.1 m' hm'.2
  | failed e m' =>
      rw [houtcome] at hm'
      exact hm'
  | unfinished => trivial

theorem Keeps.mono {good' : α -> Prop} {x : EvalOf ρ σ α} (hx : Keeps inv x good)
    (himp : forall a, good a -> good' a) : Keeps inv x good' := by
  intro m hm
  have hm' := hx m hm
  cases houtcome : x m with
  | done a m' =>
      rw [houtcome] at hm'
      exact ⟨himp a hm'.1, hm'.2⟩
  | failed e m' =>
      rw [houtcome] at hm'
      exact hm'
  | unfinished => trivial

theorem Keeps.ite {c : Prop} [Decidable c] {x y : EvalOf ρ σ α} (hx : c -> Keeps inv x good)
    (hy : ¬c -> Keeps inv y good) : Keeps inv (if c then x else y) good := by
  by_cases hc : c
  · rw [if_pos hc]
    exact hx hc
  · rw [if_neg hc]
    exact hy hc

theorem Keeps.of_done {x : EvalOf ρ σ α} (h : Keeps inv x good) {m m' : Machine σ ρ} {a : α}
    (hm : inv m) (hx : x m = .done a m') : good a ∧ inv m' := by
  have hm' := h m hm
  rw [hx] at hm'
  exact hm'

theorem keeps_failAt (cause : RuntimeCause) (pos : Pos) :
    Keeps inv (Eval.failAt cause pos : EvalOf ρ σ α) good :=
  fun _ hm => hm

theorem keeps_mismatch (place : TypedPlace) (expected found : ValueType) (pos : Pos) :
    Keeps inv (Eval.mismatch place expected found pos : EvalOf ρ σ α) good :=
  fun _ hm => hm

end Rules

/-!
# Single steps
-/

section Parts

variable {σ : Type} {p : Program} {inv : Machine σ ρ -> Prop}

theorem keeps_readVar (id : VarId) (pos : Pos) :
    KeepsAll inv (Eval.readVar p id pos : EvalOf ρ σ Value) := by
  intro m hm
  unfold Eval.readVar
  cases m.read p id with
  | some value => exact ⟨trivial, hm⟩
  | none => exact hm

theorem keeps_writeVar_of {id : VarId} {value : Value}
    (hstores : forall {m m'}, value.type = (p.variableAt id).type -> inv m ->
      m.store? p id value = some m' -> inv m') (pos : Pos) :
    KeepsAll inv (Eval.writeVar p id value pos : EvalOf ρ σ Unit) := by
  intro m hm
  unfold Eval.writeVar
  by_cases htype : (p.variableAt id).type = value.type
  · simp only [htype, if_true]
    cases hstore : m.store? p id value with
    | some m' => exact ⟨trivial, hstores htype.symm hm hstore⟩
    | none => exact hm
  · simp only [htype, if_false]
    exact hm

theorem keeps_checkArgument (f : FunId) (param : Param) (value : Value) (pos : Pos) :
    Keeps inv (Eval.checkArgument p f param value pos : EvalOf ρ σ Unit)
      fun _ => param.type.accepts value.type = true := by
  apply Keeps.ite
  · intro haccepts
    exact keeps_pure haccepts
  · intro _
    exact keeps_mismatch _ _ _ pos

theorem keeps_native (hhost : forall m host, inv m -> inv { m with host := host }) (f : Function)
    (body : Native σ) (args : List Value) (pos : Pos) :
    KeepsAll inv (Eval.native f body args pos) := by
  intro m hm
  unfold Eval.native
  cases body { pos := pos, args := args } m.host with
  | done value host => exact ⟨trivial, hhost m host hm⟩
  | failed text host => exact hhost m host hm
  | unfinished => trivial

end Parts

section Parts

variable {σ : Type} {p : Program} {inv : Machine σ -> Prop}

theorem keeps_checkArguments (f : FunId) (pos : Pos) :
    forall (params : List Param) (values : List Value),
      Keeps inv (Loaded.checkArguments p f pos params values : Eval σ Unit)
        fun _ => Accepted params values
  | param :: params, value :: values => by
      apply (keeps_checkArgument f param value pos).bind
      intro _ haccepts
      apply (keeps_checkArguments f pos params values).mono
      intro _ hrest
      exact accepted_cons haccepts hrest
  | [], _ => keeps_pure (accepted_of_nil (.inl rfl))
  | _ :: _, [] => keeps_pure (accepted_of_nil (.inr rfl))

theorem keeps_checkResult (f : Function) (pos : Pos) (result : Option Value) :
    KeepsAll inv (Eval.checkResult f pos result : Eval σ (Option Value)) := by
  apply Keeps.ite
  · intro _
    exact keeps_pure trivial
  · intro _
    exact keeps_mismatch _ _ _ pos

theorem keeps_inFrame {α : Type} {inner : Machine σ -> Prop} {frame : Frame}
    (hpush : forall m, inv m -> inner (m.push frame))
    (hpop : forall m, inner m -> inv (m.pop (Eval.variableName p))) {body : Eval σ α}
    (hbody : KeepsAll inner body) : KeepsAll inv (Eval.inFrame p frame body) := by
  intro m hm
  have hinside := hbody (m.push frame) (hpush m hm)
  unfold Eval.inFrame
  cases houtcome : body (m.push frame) with
  | done a m' =>
      rw [houtcome] at hinside
      exact ⟨trivial, hpop m' hinside.2⟩
  | failed e m' =>
      rw [houtcome] at hinside
      exact hpop m' hinside
  | unfinished => trivial

theorem keeps_asTask {inner : Machine σ -> Prop} (hstart : forall m, inv m -> inner m.forTask)
    (hend : forall m task, inv m -> inner task -> inv (m.afterTask task))
    {call : Eval σ (Option Value)} (hcall : KeepsAll inner call) :
    KeepsAll inv (Eval.asTask call) := by
  intro m hm
  have htask := hcall m.forTask (hstart m hm)
  unfold Eval.asTask
  cases houtcome : call m.forTask with
  | done value task =>
      rw [houtcome] at htask
      exact ⟨trivial, hend m task hm htask.2⟩
  | failed e task =>
      rw [houtcome] at htask
      exact ⟨trivial, hend m task hm htask⟩
  | unfinished => trivial

end Parts

/-!
# Trees
-/

abbrev ActionsKeep {σ : Type} (p : Program) (invoke : Invoke σ) (admits : Mention -> Prop)
    (inv : Machine σ -> Prop) : Prop :=
  (Actions.plain p invoke).Obey (Walk.Law.keeping RuntimeError inv inv) p admits

namespace ActionsKeep

variable {σ : Type} {p : Program} {invoke : Invoke σ} {admits : Mention -> Prop}
  {inv : Machine σ -> Prop} (h : ActionsKeep p invoke admits inv)

include h

theorem keeps_expr (e : Expr) (hadmits : Admitted admits e.mentions) :
    KeepsAll inv (Eval.expr p invoke e) := by
  rw [← walk_expr_plain]
  exact h.expr e hadmits

theorem keeps_arguments (f : FunId) (pos : Pos) (params : List Param) (args : List Expr)
    (hadmits : Admitted admits (Expr.listMentions args)) :
    Keeps inv (Eval.arguments p invoke f pos params args) (Accepted params) := by
  rw [← walk_arguments_plain]
  exact h.arguments f pos params args hadmits

theorem keeps_condition (place : TypedPlace) {cond : Expr}
    (hadmits : Admitted admits cond.mentions) :
    KeepsAll inv (Eval.condition p invoke place cond) := by
  rw [← walk_condition_plain]
  exact h.condition place hadmits

theorem keeps_loopWithin {cond : Eval σ Bool} {body : Eval σ Flow} (hcond : KeepsAll inv cond)
    (hbody : KeepsAll inv body) (limit : Nat) :
    KeepsAll inv (Eval.loopWithin cond body limit) := by
  rw [← walk_loopWithin_plain p invoke]
  exact h.loopWithin hcond hbody limit

theorem keeps_stmt (fuel : Nat) (s : Stmt) (hadmits : Admitted admits s.mentions) :
    KeepsAll inv (Eval.stmt p fuel invoke s) := by
  rw [← walk_stmt_plain]
  exact h.stmt fuel s hadmits

theorem keeps_stmts (fuel : Nat) (body : List Stmt)
    (hadmits : Admitted admits (Stmt.listMentions body)) :
    KeepsAll inv (Eval.stmts p fuel invoke body) := by
  rw [← walk_stmts_plain]
  exact h.stmts fuel body hadmits

end ActionsKeep

/-- What may be mentioned keeps a property of machines: storing into a variable, starting
and awaiting a task, and calling a function. -/
structure Invariant {σ : Type} (p : Program) (invoke : Invoke σ) (admits : Mention -> Prop)
    (inv : Machine σ -> Prop) : Prop where
  stores : forall {mention id v m m'}, admits mention -> mention.stored? = some id ->
    v.type = (p.variableAt id).type -> inv m -> m.store? p id v = some m' -> inv m'
  starts : forall {target f arity task m m'}, admits (.start target f arity) ->
    task.target = target -> inv m ->
    m.updateTasks? p target (·.insert (Eval.variableName p) task) = some m' -> inv m'
  awaits : forall {target m m'}, admits (.await target) -> inv m ->
    m.updateTasks? p target (·.erase target) = some m' -> inv m'
  calls : forall {f arity values pos}, admits (.call f arity) ->
    Accepted (p.function f).params values -> KeepsAll inv (invoke f values pos)
  tasks : forall {target f arity values pos}, admits (.start target f arity) ->
    Accepted (p.function f).params values -> KeepsAll inv (Eval.asTask (invoke f values pos))

section Execution

variable {σ : Type} {p : Program} {invoke : Invoke σ} {admits : Mention -> Prop}
  {inv : Machine σ -> Prop}

theorem keeps_writeVar (h : Invariant p invoke admits inv) {mention : Mention} {id : VarId}
    (hmention : admits mention) (hstored : mention.stored? = some id) (value : Value) (pos : Pos) :
    KeepsAll inv (Eval.writeVar p id value pos) :=
  keeps_writeVar_of (fun htype hm hstore => h.stores hmention hstored htype hm hstore) pos

/-!
# Tasks
-/

theorem keeps_checkTarget (target : VarId) (pos : Pos) :
    KeepsAll inv (Eval.checkTarget p target pos : Eval σ Unit) := by
  intro m hm
  unfold Eval.checkTarget
  cases m.tasksFor p target with
  | some tasks => exact ⟨trivial, hm⟩
  | none => exact hm

theorem keeps_addTask (h : Invariant p invoke admits inv) {task : PendingTask}
    (hadmits : exists f arity, admits (.start task.target f arity)) :
    KeepsAll inv (Eval.addTask p task : Eval σ Unit) := by
  rcases hadmits with ⟨f, arity, hadmits⟩
  intro m hm
  unfold Eval.addTask
  split
  · rename_i m' hupdate
    exact ⟨trivial, h.starts hadmits rfl hm hupdate⟩
  · exact hm

theorem keeps_startCall (h : Invariant p invoke admits inv) (pos : Pos) {target : VarId}
    {f : FunId} {arity : Nat} {values : List Value} (hadmits : admits (.start target f arity))
    (hvalues : Accepted (p.function f).params values) :
    KeepsAll inv (Eval.startCall p invoke pos target f values) := by
  apply (keeps_checkTarget target pos).bind
  intro _ _
  apply (h.tasks hadmits hvalues).bind
  intro result _
  exact keeps_addTask h ⟨f, _, hadmits⟩

theorem keeps_takeTask (h : Invariant p invoke admits inv) {target : VarId} (pos : Pos)
    (hadmits : admits (.await target)) :
    KeepsAll inv (Eval.takeTask p target pos : Eval σ PendingTask) := by
  intro m hm
  unfold Eval.takeTask
  cases (m.tasksFor p target).bind (·.find? target) with
  | none => exact hm
  | some task =>
      cases hupdate : m.updateTasks? p target (·.erase target) with
      | none => exact hm
      | some m' => exact ⟨trivial, h.awaits hadmits hm hupdate⟩

theorem keeps_awaitTask (h : Invariant p invoke admits inv) {target : VarId} (pos : Pos)
    (hadmits : admits (.await target)) :
    KeepsAll inv (Eval.awaitTask p pos target : Eval σ Unit) := by
  apply (keeps_takeTask h pos hadmits).bind
  intro task _
  cases task.result with
  | error e => exact keeps_failAt _ pos
  | ok result =>
      cases result with
      | none => exact keeps_mismatch _ _ _ pos
      | some value => exact keeps_writeVar h hadmits rfl value pos

/-!
# Expressions and statements
-/

theorem Invariant.acts (h : Invariant p invoke admits inv) : ActionsKeep p invoke admits inv where
  raise := fun _ _ hm => hm
  reads := fun pos _ => keeps_readVar _ pos
  writes := fun v pos hadmits hstored => keeps_writeVar h hadmits hstored v pos
  calls := fun _ hadmits hvalues => h.calls hadmits hvalues
  starts := fun pos hadmits hvalues => keeps_startCall h pos hadmits hvalues
  awaits := fun pos hadmits => keeps_awaitTask h pos hadmits
  exhausted := fun _ _ => trivial

theorem keeps_expr (h : Invariant p invoke admits inv) (e : Expr)
    (hadmits : Admitted admits e.mentions) : KeepsAll inv (Eval.expr p invoke e) :=
  h.acts.keeps_expr e hadmits

theorem keeps_arguments (h : Invariant p invoke admits inv) (f : FunId) (pos : Pos)
    (params : List Param) (args : List Expr) (hadmits : Admitted admits (Expr.listMentions args)) :
    Keeps inv (Eval.arguments p invoke f pos params args) (Accepted params) :=
  h.acts.keeps_arguments f pos params args hadmits

theorem keeps_condition (h : Invariant p invoke admits inv) (place : TypedPlace) {cond : Expr}
    (hadmits : Admitted admits cond.mentions) :
    KeepsAll inv (Eval.condition p invoke place cond) :=
  h.acts.keeps_condition place hadmits

theorem keeps_stmt (h : Invariant p invoke admits inv) (fuel : Nat) (s : Stmt)
    (hadmits : Admitted admits s.mentions) : KeepsAll inv (Eval.stmt p fuel invoke s) :=
  h.acts.keeps_stmt fuel s hadmits

theorem keeps_stmts (h : Invariant p invoke admits inv) (fuel : Nat) (body : List Stmt)
    (hadmits : Admitted admits (Stmt.listMentions body)) :
    KeepsAll inv (Eval.stmts p fuel invoke body) :=
  h.acts.keeps_stmts fuel body hadmits

end Execution

/-!
# Calls
-/

section Calls

variable {σ : Type} {l : Loaded σ} {inv : Machine σ -> Prop}

theorem keeps_invoke (hhost : forall m host, inv m -> inv { m with host := host }) {fuel : Nat}
    {f : FunId} {values : List Value}
    (hbody : forall block, (l.program.function f).body = some block ->
      KeepsAll inv (Eval.inFrame l.program (Eval.callFrame l.program f values)
        (Eval.stmts l.program fuel (l.invoke fuel) block.body))) (pos : Pos) :
    KeepsAll inv (l.invoke (fuel + 1) f values pos) := by
  unfold Loaded.invoke
  cases hblock : (l.program.function f).body with
  | none =>
      simp only [hblock]
      apply (keeps_native hhost _ _ values pos).bind
      intro result _
      apply Keeps.ite
      · intro _
        exact keeps_pure trivial
      · intro _
        exact keeps_checkResult _ pos result
  | some block =>
      simp only [hblock]
      apply (hbody block hblock).bind
      intro flow _
      exact keeps_checkResult _ pos _

end Calls
end Scriptlet
