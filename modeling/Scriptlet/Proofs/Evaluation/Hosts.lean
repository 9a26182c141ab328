import Scriptlet.Proofs.Evaluation.Sessions
import Scriptlet.Proofs.Evaluation.Walk

/-!
# Programs meet their host in native functions only

Everything that the evaluator does by itself leaves the host alone and does not look at
it.  So a relation between hosts that native functions respect is respected by whole
executions, at every point that they come by: they end alike, on machines that differ in
their hosts only.
-/

namespace Scriptlet

variable {σ τ : Type}

def Machine.Beside (rel : σ -> τ -> Prop) (m : Machine σ) (m' : Machine τ) : Prop :=
  exists host, rel m.host host ∧ m' = m.withHost host

def Native.Alike (rel : σ -> τ -> Prop) (body : Native σ) (body' : Native τ) : Prop :=
  forall call, (body call).Matches Eq rel False (body' call)

structure Loaded.Alike (rel : σ -> τ -> Prop) (l : Loaded σ) (l' : Loaded τ) : Prop where
  program : l'.program = l.program
  natives : forall f, (l.nativeBody f).Alike rel (l'.nativeBody f)

theorem Native.alike_lift [HasHost σ] [HasHost τ] {rel : σ -> τ -> Prop}
    (hsame : forall s t, rel s t -> HasHost.host s = HasHost.host t ∧
      forall host, rel (HasHost.withHost host s) (HasHost.withHost host t)) (body : Native Host) :
    (body.lift : Native σ).Alike rel body.lift := by
  intro call s t h
  obtain ⟨hhost, hwith⟩ := hsame s t h
  unfold Native.lift
  rw [hhost]
  cases body call (HasHost.host t) with
  | done value host => exact .done (hwith host)
  | failed text host => exact .failed rfl (hwith host)
  | unfinished => exact .unfinished

theorem Loaded.alike_map {α : Type} {rel : σ -> τ -> Prop} (p : Program) (entries : List α)
    {body : α -> Native σ} {body' : α -> Native τ}
    (h : forall entry, (body entry).Alike rel (body' entry)) :
    Loaded.Alike rel { program := p, natives := entries.map body }
      { program := p, natives := entries.map body' } where
  program := rfl
  natives := by
    intro f
    simp only [Loaded.nativeBody, List.getD_eq_getElem?_getD, List.getElem?_map]
    cases entries[f]? with
    | none => exact fun _ => matches_pure none
    | some entry => exact h entry

theorem Outcome.Matches.symm {ε α : Type} {states : σ -> τ -> Prop} {x : Outcome ε σ α}
    {y : Outcome ε τ α} (h : x.Matches Eq states False y) :
    y.Matches Eq (fun t s => states s t) False x := by
  cases h with
  | done hstates => exact .done hstates
  | failed he hstates => exact .failed he.symm hstates
  | unfinished => exact .unfinished
  | cut hnever => exact hnever.elim

theorem Loaded.Alike.symm {rel : σ -> τ -> Prop} {l : Loaded σ} {l' : Loaded τ}
    (h : l.Alike rel l') : l'.Alike (fun t s => rel s t) l where
  program := h.program.symm
  natives := fun f call t s hrel => (h.natives f call s t hrel).symm

abbrev AlikeBeside {α : Type} (rel : σ -> τ -> Prop) (x : Eval σ α) (y : Eval τ α) : Prop :=
  Run.Matches Eq (Machine.Beside rel) False x y

/-!
# Variables and tasks
-/

section Access

variable {rel : σ -> τ -> Prop} {p : Program} {id : VarId}

theorem store?_withHost (m : Machine σ) (host : τ) (v : Value) :
    (m.withHost host).store? p id v = (m.store? p id v).map (·.withHost host) := by
  cases howner : (p.variableAt id).owner with
  | none => simp only [Machine.store?, howner, Machine.withHost, Option.map_some]
  | some owner =>
      simp only [Machine.store?, howner, Machine.withHost, Option.map_map, Function.comp_def]

theorem updateTasks?_withHost (m : Machine σ) (host : τ) (change : TaskList -> TaskList) :
    (m.withHost host).updateTasks? p id change =
      (m.updateTasks? p id change).map (·.withHost host) := by
  cases howner : (p.variableAt id).owner with
  | none => simp only [Machine.updateTasks?, howner, Machine.withHost, Option.map_some]
  | some owner =>
      simp only [Machine.updateTasks?, howner, Machine.withHost, Option.map_map, Function.comp_def]

theorem host_store? {m m' : Machine σ} {v : Value} (h : m.store? p id v = some m') :
    m'.host = m.host := by
  cases howner : (p.variableAt id).owner with
  | none =>
      simp only [Machine.store?, howner, Option.some.injEq] at h
      rw [← h]
  | some owner =>
      simp only [Machine.store?, howner] at h
      obtain ⟨frames, -, rfl⟩ := Option.map_eq_some_iff.mp h
      rfl

theorem host_updateTasks? {m m' : Machine σ} {change : TaskList -> TaskList}
    (h : m.updateTasks? p id change = some m') : m'.host = m.host := by
  cases howner : (p.variableAt id).owner with
  | none =>
      simp only [Machine.updateTasks?, howner, Option.some.injEq] at h
      rw [← h]
  | some owner =>
      simp only [Machine.updateTasks?, howner] at h
      obtain ⟨frames, -, rfl⟩ := Option.map_eq_some_iff.mp h
      rfl

theorem beside_readVar (pos : Pos) :
    AlikeBeside rel (Eval.readVar p id pos) (Eval.readVar p id pos) := by
  rintro m _ ⟨host, h, rfl⟩
  have hread : (m.withHost host).read p id = m.read p id := rfl
  unfold Eval.readVar
  rw [hread]
  cases m.read p id with
  | some v => exact .done ⟨host, h, rfl⟩
  | none => exact .failed rfl ⟨host, h, rfl⟩

theorem beside_writeVar (v : Value) (pos : Pos) :
    AlikeBeside rel (Eval.writeVar p id v pos) (Eval.writeVar p id v pos) := by
  rintro m _ ⟨host, h, rfl⟩
  unfold Eval.writeVar
  rw [store?_withHost]
  by_cases htype : (p.variableAt id).type = v.type
  · simp only [if_pos htype]
    cases hstore : m.store? p id v with
    | some m' => exact .done ⟨host, host_store? hstore ▸ h, rfl⟩
    | none => exact .failed rfl ⟨host, h, rfl⟩
  · simp only [if_neg htype]
    exact .failed rfl ⟨host, h, rfl⟩

theorem beside_checkTarget (pos : Pos) :
    AlikeBeside rel (Eval.checkTarget p id pos) (Eval.checkTarget p id pos) := by
  rintro m _ ⟨host, h, rfl⟩
  have hfor : (m.withHost host).tasksFor p id = m.tasksFor p id := rfl
  unfold Eval.checkTarget
  rw [hfor]
  cases m.tasksFor p id with
  | some tasks => exact .done ⟨host, h, rfl⟩
  | none => exact .failed rfl ⟨host, h, rfl⟩

theorem beside_addTask (task : PendingTask) :
    AlikeBeside rel (Eval.addTask p task) (Eval.addTask p task) := by
  rintro m _ ⟨host, h, rfl⟩
  unfold Eval.addTask
  rw [updateTasks?_withHost]
  cases hupdate : m.updateTasks? p task.target (·.insert (Eval.variableName p) task) with
  | some m' => exact .done ⟨host, host_updateTasks? hupdate ▸ h, rfl⟩
  | none => exact .failed rfl ⟨host, h, rfl⟩

theorem beside_takeTask (pos : Pos) :
    AlikeBeside rel (Eval.takeTask p id pos) (Eval.takeTask p id pos) := by
  rintro m _ ⟨host, h, rfl⟩
  have hfor : (m.withHost host).tasksFor p id = m.tasksFor p id := rfl
  unfold Eval.takeTask
  rw [updateTasks?_withHost, hfor]
  cases (m.tasksFor p id).bind (·.find? id) with
  | none => exact .failed rfl ⟨host, h, rfl⟩
  | some task =>
      cases hupdate : m.updateTasks? p id (·.erase id) with
      | some m' => exact .done ⟨host, host_updateTasks? hupdate ▸ h, rfl⟩
      | none => exact .failed rfl ⟨host, h, rfl⟩

theorem beside_awaitTask (pos : Pos) :
    AlikeBeside rel (Eval.awaitTask p pos id) (Eval.awaitTask p pos id) := by
  apply (beside_takeTask pos).bind
  intro task
  cases task.result with
  | error e => exact matches_fail rfl
  | ok result =>
      cases result with
      | none => exact matches_fail rfl
      | some v => exact beside_writeVar v pos

end Access

/-!
# Calls
-/

section Calls

variable {rel : σ -> τ -> Prop} {p : Program}

theorem beside_asTask {call : Eval σ (Option Value)} {call' : Eval τ (Option Value)}
    (h : AlikeBeside rel call call') : AlikeBeside rel (Eval.asTask call) (Eval.asTask call') := by
  rintro m _ ⟨host, hhost, rfl⟩
  have hcall := h m.forTask (m.withHost host).forTask ⟨host, hhost, rfl⟩
  unfold Eval.asTask
  generalize call m.forTask = first at hcall
  generalize call' (m.withHost host).forTask = second at hcall
  cases hcall with
  | done hstates =>
      obtain ⟨host', hhost', rfl⟩ := hstates
      exact .done ⟨host', hhost', rfl⟩
  | failed he hstates =>
      subst he
      obtain ⟨host', hhost', rfl⟩ := hstates
      exact .done ⟨host', hhost', rfl⟩
  | unfinished => exact .unfinished
  | cut hnever => exact hnever.elim

theorem pop_withHost (m : Machine σ) (host : τ) (name : VarId -> String) :
    (m.withHost host).pop name = (m.pop name).withHost host := by
  rcases m with ⟨own, globals, frames, tasks⟩
  cases frames <;> rfl

theorem host_pop (m : Machine σ) (name : VarId -> String) : (m.pop name).host = m.host := by
  rcases m with ⟨own, globals, frames, tasks⟩
  cases frames <;> rfl

theorem beside_inFrame {α : Type} {frame : Frame} {body : Eval σ α} {body' : Eval τ α}
    (h : AlikeBeside rel body body') :
    AlikeBeside rel (Eval.inFrame p frame body) (Eval.inFrame p frame body') := by
  apply Run.Matches.around h
  · rintro m _ ⟨host, hhost, rfl⟩
    exact ⟨host, hhost, rfl⟩
  · rintro m _ ⟨host, hhost, rfl⟩
    exact ⟨host, by rwa [host_pop], pop_withHost m host _⟩

theorem beside_native (f : Function) {body : Native σ} {body' : Native τ}
    (h : body.Alike rel body') (args : List Value) (pos : Pos) :
    AlikeBeside rel (Eval.native f body args pos) (Eval.native f body' args pos) := by
  rintro m _ ⟨host, hhost, rfl⟩
  have hbody := h { pos := pos, args := args } m.host host hhost
  have hof : (m.withHost host).host = host := rfl
  unfold Eval.native
  rw [hof]
  generalize body { pos := pos, args := args } m.host = first at hbody
  generalize body' { pos := pos, args := args } host = second at hbody
  cases hbody with
  | done hafter => exact .done ⟨_, hafter, rfl⟩
  | failed htext hafter =>
      subst htext
      exact .failed rfl ⟨_, hafter, rfl⟩
  | unfinished => exact .unfinished
  | cut hnever => exact hnever.elim

theorem beside_checkResult (f : Function) (pos : Pos) (result : Option Value) :
    AlikeBeside rel (Eval.checkResult f pos result) (Eval.checkResult f pos result) := by
  unfold Eval.checkResult
  split
  · exact matches_pure _
  · exact matches_fail rfl

theorem beside_actions (p : Program) {invoke : Invoke σ} {invoke' : Invoke τ}
    (hcalls : forall f values pos, AlikeBeside rel (invoke f values pos) (invoke' f values pos)) :
    (Actions.plain p invoke).Match (fun _ => True) Eq (Machine.Beside rel) False
      (Actions.plain p invoke') where
  raise := fun _ => matches_fail rfl
  reads := fun pos _ => beside_readVar pos
  writes := fun v pos _ _ => beside_writeVar v pos
  calls := fun values pos _ => hcalls _ values pos
  starts := by
    intro target f arity pos values _
    apply (beside_checkTarget pos).bind
    intro _
    exact (beside_asTask (hcalls _ values pos)).bind fun _ => beside_addTask _
  awaits := fun pos _ => beside_awaitTask pos
  exhausted := fun _ _ _ => .unfinished

theorem beside_checkArguments (f : FunId) (pos : Pos) (params : List Param)
    (values : List Value) :
    AlikeBeside rel (Loaded.checkArguments p f pos params values)
      (Loaded.checkArguments p f pos params values) := by
  have hcheck : forall (param : Param) (v : Value),
      AlikeBeside rel (Eval.checkArgument p f param v pos)
        (Eval.checkArgument p f param v pos) := by
    intro param v
    unfold Eval.checkArgument
    split
    · exact matches_pure ()
    · exact matches_fail rfl
  induction params generalizing values with
  | nil => exact matches_pure ()
  | cons param params ih =>
      cases values with
      | nil => exact matches_pure ()
      | cons v values => exact (hcheck param v).bind fun _ => ih values

theorem admitted_true (mentions : List Mention) : Admitted (fun _ => True) mentions :=
  fun _ _ => trivial

variable {l : Loaded σ} {l' : Loaded τ} (h : l.Alike rel l')

include h

theorem beside_invoke (fuel : Nat) (f : FunId) (values : List Value) (pos : Pos) :
    AlikeBeside rel (l.invoke fuel f values pos) (l'.invoke fuel f values pos) := by
  -- By induction on the fuel, with the native functions at the bottom.
  induction fuel generalizing f values pos with
  | zero => exact fun _ _ _ => .unfinished
  | succ fuel ih =>
      unfold Loaded.invoke
      rw [h.program]
      cases hbody : (l.program.function f).body with
      | none =>
          simp only [hbody]
          apply (beside_native _ (h.natives f) values pos).bind
          intro result
          split
          · exact matches_pure _
          · exact beside_checkResult _ pos result
      | some block =>
          simp only [hbody]
          have hstmts := matches_stmts (p := l.program) (beside_actions l.program ih) fuel
            block.body (admitted_true _)
          rw [walk_stmts_plain, walk_stmts_plain] at hstmts
          apply (beside_inFrame hstmts).bind
          intro flow
          exact beside_checkResult _ pos _

section Trees

variable (fuel : Nat)

theorem beside_expr (e : Expr) :
    AlikeBeside rel (Eval.expr l.program (l.invoke fuel) e)
      (Eval.expr l.program (l'.invoke fuel) e) := by
  have hwalk := matches_expr (p := l.program) (beside_actions l.program (beside_invoke h fuel)) e
    (admitted_true _)
  rwa [walk_expr_plain, walk_expr_plain] at hwalk

theorem beside_arguments (f : FunId) (pos : Pos) (params : List Param) (args : List Expr) :
    AlikeBeside rel (Eval.arguments l.program (l.invoke fuel) f pos params args)
      (Eval.arguments l.program (l'.invoke fuel) f pos params args) := by
  have hwalk := matches_arguments (p := l.program)
    (beside_actions l.program (beside_invoke h fuel)) f pos params args (admitted_true _)
  rwa [walk_arguments_plain, walk_arguments_plain] at hwalk

theorem beside_condition (place : TypedPlace) (cond : Expr) :
    AlikeBeside rel (Eval.condition l.program (l.invoke fuel) place cond)
      (Eval.condition l.program (l'.invoke fuel) place cond) := by
  have hwalk := matches_condition (p := l.program)
    (beside_actions l.program (beside_invoke h fuel)) place (admitted_true cond.mentions)
  rwa [walk_condition_plain, walk_condition_plain] at hwalk

theorem beside_stmt (s : Stmt) :
    AlikeBeside rel (Eval.stmt l.program fuel (l.invoke fuel) s)
      (Eval.stmt l.program fuel (l'.invoke fuel) s) := by
  have hwalk := matches_stmt (p := l.program)
    (beside_actions l.program (beside_invoke h fuel)) fuel s (admitted_true _)
  rwa [walk_stmt_plain, walk_stmt_plain] at hwalk

theorem beside_stmts (body : List Stmt) :
    AlikeBeside rel (Eval.stmts l.program fuel (l.invoke fuel) body)
      (Eval.stmts l.program fuel (l'.invoke fuel) body) := by
  have hwalk := matches_stmts (p := l.program)
    (beside_actions l.program (beside_invoke h fuel)) fuel body (admitted_true _)
  rwa [walk_stmts_plain, walk_stmts_plain] at hwalk

end Trees

theorem beside_run (fuel : Nat) : AlikeBeside rel (l.run fuel) (l'.run fuel) := by
  unfold Loaded.run
  rw [h.program]
  apply (beside_stmts h fuel l.program.root).bind
  intro flow
  have hleaks : AlikeBeside rel (Loaded.takeLeaks l.program) (Loaded.takeLeaks l.program) := by
    rintro m _ ⟨host, hhost, rfl⟩
    exact .done ⟨host, hhost, rfl⟩
  exact hleaks.bind fun _ => matches_pure _

theorem beside_callFunction (fuel : Nat) (f : FunId) (args : List Value) :
    AlikeBeside rel (l.callFunction fuel f args) (l'.callFunction fuel f args) := by
  unfold Loaded.callFunction
  rw [h.program]
  by_cases harity : args.length ≠ (l.program.function f).params.length
  · simp only [if_pos harity]
    exact matches_fail rfl
  · simp only [if_neg harity]
    exact (beside_checkArguments f _ _ args).bind fun _ => beside_invoke h fuel f args _

/-!
# Points of an execution
-/

omit h in
theorem Run.Matches.of_done {α : Type} {x : Eval σ α} {y : Eval τ α} (hxy : AlikeBeside rel x y)
    {m m₁ : Machine σ} {m' : Machine τ} (hm : m.Beside rel m') {a : α} (hx : x m = .done a m₁) :
    exists m₁', y m' = .done a m₁' ∧ m₁.Beside rel m₁' := by
  have hmatches := hxy m m' hm
  rw [hx] at hmatches
  generalize y m' = second at hmatches
  cases hmatches with
  | done hafter => exact ⟨_, rfl, hafter⟩

omit h in
theorem Run.Matches.of_state {α : Type} {x : Eval σ α} {y : Eval τ α} (hxy : AlikeBeside rel x y)
    {m m₁ : Machine σ} {m' : Machine τ} (hm : m.Beside rel m') (hx : (x m).state? = some m₁) :
    exists m₁', (y m').state? = some m₁' ∧ m₁.Beside rel m₁' := by
  have hmatches := hxy m m' hm
  generalize x m = first at hmatches hx
  generalize y m' = second at hmatches
  cases hmatches with
  | done hafter =>
      cases hx
      exact ⟨_, rfl, hafter⟩
  | failed he hafter =>
      cases hx
      exact ⟨_, rfl, hafter⟩
  | unfinished => cases hx
  | cut hnever => exact hnever.elim

theorem EvalPoint.Step.beside {a b : EvalPoint σ} (hstep : a.Step l b) {m' : Machine τ}
    (ha : a.machine.Beside rel m') : exists m'', b.machine.Beside rel m'' ∧
      EvalPoint.Step l' ⟨a.fuel, a.work, m'⟩ ⟨b.fuel, b.work, m''⟩ := by
  rcases l with ⟨p, natives⟩
  rcases l' with ⟨p', natives'⟩
  obtain rfl : p' = p := h.program
  cases hstep with
  | operand => exact ⟨m', ha, .operand⟩
  | left => exact ⟨m', ha, .left⟩
  | right hleft =>
      obtain ⟨m'', hleft', hm''⟩ := (beside_expr h _ _).of_done ha hleft
      exact ⟨m'', hm'', .right hleft'⟩
  | arguments => exact ⟨m', ha, .arguments⟩
  | callee hargs =>
      obtain ⟨m'', hargs', hm''⟩ := (beside_arguments h _ _ _ _ _).of_done ha hargs
      exact ⟨m'', hm'', .callee hargs'⟩
  | argument => exact ⟨m', ha, .argument⟩
  | nextArgument harg =>
      obtain ⟨m'', harg', hm''⟩ := (beside_expr h _ _).of_done ha harg
      exact ⟨m'', hm'', .nextArgument harg'⟩
  | first => exact ⟨m', ha, .first⟩
  | next hs =>
      obtain ⟨m'', hs', hm''⟩ := (beside_stmt h _ _).of_done ha hs
      exact ⟨m'', hm'', .next hs'⟩
  | initializer => exact ⟨m', ha, .initializer⟩
  | assigned => exact ⟨m', ha, .assigned⟩
  | returned => exact ⟨m', ha, .returned⟩
  | block => exact ⟨m', ha, .block⟩
  | condition => exact ⟨m', ha, .condition⟩
  | branch hcond =>
      obtain ⟨m'', hcond', hm''⟩ := (beside_condition h _ _ _).of_done ha hcond
      exact ⟨m'', hm'', .branch hcond'⟩
  | loop => exact ⟨m', ha, .loop⟩
  | roundCondition => exact ⟨m', ha, .roundCondition⟩
  | round hcond =>
      obtain ⟨m'', hcond', hm''⟩ := (beside_condition h _ _ _).of_done ha hcond
      exact ⟨m'', hm'', .round hcond'⟩
  | nextRound hcond hbody =>
      obtain ⟨m₁, hcond', hm₁⟩ := (beside_condition h _ _ _).of_done ha hcond
      obtain ⟨m₂, hbody', hm₂⟩ := (beside_stmts h _ _).of_done hm₁ hbody
      exact ⟨m₂, hm₂, .nextRound hcond' hbody'⟩
  | stmtArguments => exact ⟨m', ha, .stmtArguments⟩
  | stmtCallee hargs =>
      obtain ⟨m'', hargs', hm''⟩ := (beside_arguments h _ _ _ _ _).of_done ha hargs
      exact ⟨m'', hm'', .stmtCallee hargs'⟩
  | taskArguments => exact ⟨m', ha, .taskArguments⟩
  | task hargs =>
      obtain ⟨m'', hargs', hm''⟩ := (beside_arguments h _ _ _ _ _).of_done ha hargs
      obtain ⟨host, hhost, rfl⟩ := hm''
      exact ⟨(Machine.withHost _ host).forTask, ⟨host, hhost, rfl⟩, .task hargs'⟩
  | body hblock =>
      obtain ⟨host, hhost, rfl⟩ := ha
      exact ⟨(Machine.withHost _ host).push _, ⟨host, hhost, rfl⟩, .body hblock⟩

theorem EvalPoint.beside_end {point : EvalPoint σ} {m₁ : Machine σ} {m' : Machine τ}
    (hm : point.machine.Beside rel m') (hend : point.end? l = some m₁) :
    exists m₁', EvalPoint.end? l' ⟨point.fuel, point.work, m'⟩ = some m₁' ∧
      m₁.Beside rel m₁' := by
  rcases l with ⟨p, natives⟩
  rcases l' with ⟨p', natives'⟩
  obtain rfl : p' = p := h.program
  rcases point with ⟨fuel, work, m⟩
  cases work with
  | expr e => exact (beside_expr h fuel e).of_state hm hend
  | arguments f pos params args =>
      exact (beside_arguments h fuel f pos params args).of_state hm hend
  | stmt s => exact (beside_stmt h fuel s).of_state hm hend
  | stmts body => exact (beside_stmts h fuel body).of_state hm hend
  | rounds cond body limit =>
      have hloop := matches_loopWithin (beside_actions p' (beside_invoke h fuel))
        (beside_condition h fuel .whileCondition cond) (beside_stmts h fuel body) limit
      rw [walk_loopWithin_plain, walk_loopWithin_plain] at hloop
      exact hloop.of_state hm hend
  | call f values pos => exact (beside_invoke h fuel f values pos).of_state hm hend

end Calls
end Scriptlet
