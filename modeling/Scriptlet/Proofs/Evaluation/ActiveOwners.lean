import Scriptlet.Proofs.Evaluation.Sessions
import Scriptlet.Proofs.Program.Nesting

/-!
# Owners of active frames

Whatever is evaluated leaves frames of the same functions behind, in the same order.  So
where a body runs, the functions around it have frames, as long as tasks are calls of
outermost functions: no variable that a body names is looked up in vain.
-/

namespace Scriptlet

variable {ρ : Type}

def Program.TasksOutermost (p : Program) : Prop :=
  forall target f arity,
    (.start target f arity ∈ Stmt.listMentions p.root ∨
      exists g, .start target f arity ∈ p.mentionsOf g) -> p.Outermost f

def Machine.owners {σ : Type} (m : Machine σ ρ) : List FunId :=
  m.frames.map (·.owner)

/-!
# Owners stay the same
-/

section Owners

variable {σ : Type} {p : Program} {m m' : Machine σ ρ}

theorem owners_store? {id : VarId} {v : Value} (h : m.store? p id v = some m') :
    m'.owners = m.owners := by
  rcases Machine.frames_store? h with hsame | ⟨f, -, hupdate⟩
  · rw [Machine.owners, hsame, Machine.owners]
  · exact map_updateFrame hupdate fun _ => rfl

theorem owners_updateTasks? {id : VarId} {change : TaskList ρ -> TaskList ρ}
    (h : m.updateTasks? p id change = some m') : m'.owners = m.owners := by
  rcases Machine.frames_updateTasks? h with hsame | ⟨f, -, hupdate⟩
  · rw [Machine.owners, hsame, Machine.owners]
  · exact map_updateFrame hupdate fun _ => rfl

theorem owners_pop (name : VarId -> String) {f : FunId} {owners : List FunId}
    (h : m.owners = f :: owners) : (m.pop name).owners = owners := by
  rw [Machine.owners] at h
  rw [Machine.pop]
  cases hframes : m.frames with
  | nil =>
      rw [hframes] at h
      cases h
  | cons frame rest =>
      rw [hframes] at h
      exact List.tail_eq_of_cons_eq h

end Owners

section Owners

variable {σ : Type} {p : Program}

theorem owners_invariant {invoke : Invoke σ} (owners : List FunId)
    (hcalls : forall f values pos owners, KeepsAll (fun m => m.owners = owners) (invoke f values pos)) :
    Invariant p invoke (fun _ => True) fun m => m.owners = owners where
  stores := fun _ _ _ hm hstore => (owners_store? hstore).trans hm
  starts := fun _ _ hm hupdate => (owners_updateTasks? hupdate).trans hm
  awaits := fun _ hm hupdate => (owners_updateTasks? hupdate).trans hm
  calls := fun {f} _ values pos _ _ => hcalls f values pos owners
  tasks := fun {_} {f} _ values pos _ _ =>
    keeps_asTask (fun _ _ => rfl) (fun _ _ hm _ => hm) (hcalls f values pos [])

theorem keepsOwners_invoke (l : Loaded σ) (fuel : Nat) (f : FunId) (values : List Value) (pos : Pos)
    (owners : List FunId) : KeepsAll (fun m => m.owners = owners) (l.invoke fuel f values pos) := by
  induction fuel generalizing f values pos owners with
  | zero => exact fun _ _ => trivial
  | succ fuel ih =>
      apply keeps_invoke
      · exact fun _ _ hm => hm
      · intro block _
        have hinvariant : Invariant l.program (l.invoke fuel) (fun _ => True) _ :=
          owners_invariant (f :: owners) ih
        have hbody := keeps_stmts hinvariant fuel block.body fun _ _ => trivial
        exact keeps_inFrame (fun _ hm => congrArg (f :: ·) hm) (fun _ hm => owners_pop _ hm) hbody

theorem invariant_owners (l : Loaded σ) (fuel : Nat) (owners : List FunId) :
    Invariant l.program (l.invoke fuel) (fun _ => True) fun m => m.owners = owners :=
  owners_invariant owners (keepsOwners_invoke l fuel)

end Owners

/-!
# What is near at the points of a session
-/

/-- What is named and called is near, and a task needs nothing to be near. -/
structure Mention.InReach (p : Program) (near : FunId -> Prop) (m : Mention) : Prop
    extends Mention.Near p near m where
  task : forall {target f arity}, m = .start target f arity -> forall o, ¬p.Encloses o f

def EvalWork.InReach (p : Program) (near : FunId -> Prop) : EvalWork -> Prop
  | .expr e => Admitted (Mention.InReach p near) e.mentions
  | .arguments _ _ _ args => Admitted (Mention.InReach p near) (Expr.listMentions args)
  | .stmt s => Admitted (Mention.InReach p near) s.mentions
  | .stmts body => Admitted (Mention.InReach p near) (Stmt.listMentions body)
  | .rounds cond body _ => Admitted (Mention.InReach p near) (cond.mentions ++ Stmt.listMentions body)
  | .call f _ _ => forall o, p.Encloses o f -> near o

def EvalPoint.InReach {σ : Type} (p : Program) (point : EvalPoint σ) : Prop :=
  point.work.InReach p (· ∈ point.machine.owners)

section Reach

variable {p : Program} (hwell : p.WellFormed) (hnested : p.WellNested)
  (htasks : p.TasksOutermost)

include hwell hnested htasks

theorem inReach_body {f : FunId} {near : FunId -> Prop} (hnear : forall o, p.Surrounds o f -> near o) :
    Admitted (Mention.InReach p near) (p.mentionsOf f) := by
  intro m hm
  refine ⟨Program.near_body hwell hnested.nested hnear m hm, ?_⟩
  intro target g arity hstart
  exact (htasks target g arity (.inr ⟨f, hstart ▸ hm⟩)).not_encloses

theorem inReach_root (near : FunId -> Prop) :
    Admitted (Mention.InReach p near) (Stmt.listMentions p.root) := by
  intro m hm
  refine ⟨Program.near_root hwell hnested near m hm, ?_⟩
  intro target g arity hstart
  exact (htasks target g arity (.inl (hstart ▸ hm))).not_encloses

end Reach

section Points

variable {σ : Type} {l : Loaded σ}

theorem Keeps.owners {α : Type} {x : Eval σ α} {good : α -> Prop} {m m' : Machine σ} {a : α}
    (h : Keeps (fun m' => m'.owners = m.owners) x good) (hx : x m = .done a m') :
    m'.owners = m.owners :=
  (h.of_done rfl hx).2

variable {fuel : Nat} {m m' : Machine σ}

theorem owners_expr {e : Expr} {v : Value}
    (h : Eval.expr l.program (l.invoke fuel) e m = .done v m') : m'.owners = m.owners :=
  (keeps_expr (invariant_owners l fuel _) e fun _ _ => trivial).owners h

theorem owners_arguments {f : FunId} {pos : Pos} {params : List Param} {args : List Expr}
    {values : List Value}
    (h : Eval.arguments l.program (l.invoke fuel) f pos params args m = .done values m') :
    m'.owners = m.owners :=
  (keeps_arguments (invariant_owners l fuel _) f pos params args fun _ _ => trivial).owners h

theorem owners_condition {place : TypedPlace} {cond : Expr} {b : Bool}
    (h : Eval.condition l.program (l.invoke fuel) place cond m = .done b m') :
    m'.owners = m.owners :=
  (keeps_condition (invariant_owners l fuel _) place fun _ _ => trivial).owners h

theorem owners_stmt {s : Stmt} {flow : Flow}
    (h : Eval.stmt l.program fuel (l.invoke fuel) s m = .done flow m') : m'.owners = m.owners :=
  (keeps_stmt (invariant_owners l fuel _) fuel s fun _ _ => trivial).owners h

theorem owners_stmts {body : List Stmt} {flow : Flow}
    (h : Eval.stmts l.program fuel (l.invoke fuel) body m = .done flow m') : m'.owners = m.owners :=
  (keeps_stmts (invariant_owners l fuel _) fuel body fun _ _ => trivial).owners h

variable (hwell : l.program.WellFormed) (hnested : l.program.WellNested)
  (htasks : l.program.TasksOutermost)

include hwell hnested htasks

theorem EvalPoint.Step.inReach {a b : EvalPoint σ} (hstep : a.Step l b)
    (ha : a.InReach l.program) : b.InReach l.program := by
  unfold EvalPoint.InReach at ha ⊢
  cases hstep with
  | operand => exact ha
  | left => exact Admitted.left ha
  | right hleft => exact owners_expr hleft ▸ Admitted.right ha
  | arguments => exact Admitted.tail ha
  | callee hargs =>
      intro o ho
      exact owners_arguments hargs ▸ (Admitted.head ha).callee rfl ho
  | argument => exact Admitted.left ha
  | nextArgument harg => exact owners_expr harg ▸ Admitted.right ha
  | first => exact Admitted.left ha
  | next hs => exact owners_stmt hs ▸ Admitted.right ha
  | initializer => exact Admitted.tail ha
  | assigned => exact Admitted.tail ha
  | returned => exact ha
  | block => exact ha
  | condition => exact Admitted.left ha
  | branch hcond => exact owners_condition hcond ▸ Admitted.right ha
  | loop => exact ha
  | roundCondition => exact Admitted.left ha
  | round hcond => exact owners_condition hcond ▸ Admitted.right ha
  | nextRound hcond hbody => exact (owners_stmts hbody).trans (owners_condition hcond) ▸ ha
  | stmtArguments => exact Admitted.tail ha
  | stmtCallee hargs =>
      intro o ho
      exact owners_arguments hargs ▸ (Admitted.head ha).callee rfl ho
  | taskArguments => exact Admitted.tail ha
  | task hargs =>
      intro o ho
      exact absurd ho ((Admitted.head ha).task rfl o)
  | @body fuel f values pos m block hblock =>
      have hinside : forall o, l.program.Surrounds o f ->
          o ∈ (m.push (Eval.callFrame l.program f values)).owners := by
        intro o ho
        rcases ho.eq_or_encloses with rfl | hencloses
        · exact List.mem_cons_self
        · exact List.mem_cons_of_mem _ (ha o hencloses)
      have hbody := inReach_body hwell hnested htasks hinside
      rw [Program.mentionsOf_of_body hblock] at hbody
      exact hbody

theorem Loaded.Reaches.inReach {host : σ} {point : EvalPoint σ} (h : l.Reaches host point) :
    point.InReach l.program := by
  induction h with
  | run fuel _ => exact inReach_root hwell hnested htasks _
  | call fuel _ hglobal _ => exact fun o ho => absurd ho ((hnested.globals hglobal).not_encloses o)
  | step _ hstep ih => exact hstep.inReach hwell hnested htasks ih

end Points

/-!
# Accesses
-/

/-- The machine on which a point looks a variable up, to read it, to store into it or to
change the tasks that wait on it. -/
inductive EvalPoint.Accesses {σ : Type} (l : Loaded σ) : EvalPoint σ -> VarId -> Machine σ -> Prop where
  | read {fuel pos id m} : Accesses l ⟨fuel, .expr (.var pos id), m⟩ id m
  | declare {fuel pos id init m v m'} :
      Eval.expr l.program (l.invoke fuel) init m = .done v m' ->
      Accesses l ⟨fuel, .stmt (.varDecl pos id (some init)), m⟩ id m'
  | assign {fuel pos id value m v m'} :
      Eval.expr l.program (l.invoke fuel) value m = .done v m' ->
      Accesses l ⟨fuel, .stmt (.assign pos id value), m⟩ id m'
  | start {fuel pos id f args m values m' result m''} :
      Eval.arguments l.program (l.invoke fuel) f pos (l.program.function f).params args m =
        .done values m' ->
      Eval.asTask (l.invoke fuel f values pos) m' = .done result m'' ->
      Accesses l ⟨fuel, .stmt (.async pos id f args), m⟩ id m''
  | await {fuel pos id m} : Accesses l ⟨fuel, .stmt (.await pos id), m⟩ id m
  | deliver {fuel pos id m task m'} : Eval.takeTask l.program id pos m = .done task m' ->
      Accesses l ⟨fuel, .stmt (.await pos id), m⟩ id m'

/-- The place of the variable is found, whatever is done to it. -/
structure Machine.Finds {σ : Type} (p : Program) (m : Machine σ ρ) (id : VarId) : Prop where
  frame : forall o, (p.variableAt id).owner = some o -> (m.frameOf o).isSome
  store : forall v, (m.store? p id v).isSome
  tasks : (m.tasksFor p id).isSome
  update : forall g, (m.updateTasks? p id g).isSome

theorem isSome_updateFrame {o : FunId} (change : Frame ρ -> Frame ρ) {frames : List (Frame ρ)}
    (h : o ∈ frames.map (·.owner)) : (Machine.updateFrame o change frames).isSome := by
  induction frames with
  | nil => cases h
  | cons frame rest ih =>
      rw [Machine.updateFrame]
      by_cases howner : frame.owner = o
      · rw [if_pos howner]
        rfl
      · rw [if_neg howner, Option.isSome_map]
        rcases List.mem_cons.mp h with heq | hrest
        · exact absurd heq.symm howner
        · exact ih hrest

section Accesses

variable {σ : Type} {p : Program} {m : Machine σ ρ}

theorem Machine.finds_of_owner {id : VarId}
    (h : forall o, (p.variableAt id).owner = some o -> o ∈ m.owners) : m.Finds p id := by
  have hframe : forall o, (p.variableAt id).owner = some o -> (m.frameOf o).isSome := by
    intro o howner
    rcases List.mem_map.mp (h o howner) with ⟨frame, hmem, hof⟩
    rw [Machine.frameOf, List.find?_isSome]
    exact ⟨frame, hmem, by simpa using hof⟩
  refine ⟨hframe, ?_, ?_, ?_⟩
  · intro v
    rw [Machine.store?]
    cases howner : (p.variableAt id).owner with
    | none => rfl
    | some o =>
        simp only [Option.isSome_map]
        exact isSome_updateFrame _ (h o howner)
  · rw [Machine.tasksFor]
    cases howner : (p.variableAt id).owner with
    | none => rfl
    | some o =>
        simp only [Option.isSome_map]
        exact hframe o howner
  · intro g
    rw [Machine.updateTasks?]
    cases howner : (p.variableAt id).owner with
    | none => rfl
    | some o =>
        simp only [Option.isSome_map]
        exact isSome_updateFrame _ (h o howner)

theorem Machine.isSome_tasksFor_iff {id : VarId} : (m.tasksFor p id).isSome <->
    forall o, (p.variableAt id).owner = some o -> o ∈ m.owners := by
  constructor
  · intro h o howner
    rw [tasksFor, howner, Option.isSome_map, frameOf, List.find?_isSome] at h
    rcases h with ⟨frame, hmem, hof⟩
    exact List.mem_map.mpr ⟨frame, hmem, by simpa using hof⟩
  · intro h
    exact (finds_of_owner h).tasks

theorem Machine.finds_of_tasksFor {id : VarId} {tasks : TaskList ρ}
    (h : m.tasksFor p id = some tasks) : m.Finds p id :=
  finds_of_owner (isSome_tasksFor_iff.mp (Option.isSome_of_eq_some h))

end Accesses

section Accesses

variable {σ : Type} {l : Loaded σ} {m : Machine σ}

theorem EvalPoint.Accesses.owner {point : EvalPoint σ} {id : VarId} (h : point.Accesses l id m)
    (hpoint : point.InReach l.program) {o : FunId} (howner : (l.program.variableAt id).owner = some o) :
    o ∈ m.owners := by
  cases h with
  | read => exact (Admitted.head hpoint).owner rfl howner
  | declare hinit => exact owners_expr hinit ▸ (Admitted.head hpoint).owner rfl howner
  | assign hvalue => exact owners_expr hvalue ▸ (Admitted.head hpoint).owner rfl howner
  | @start fuel pos id f args start values m' result m'' hargs htask =>
      have hcall := keepsOwners_invoke l fuel f values pos []
      have hkeeps : KeepsAll (fun m => m.owners = m'.owners) (Eval.asTask (l.invoke fuel f values pos)) :=
        keeps_asTask (fun _ _ => rfl) (fun _ _ hm _ => hm) hcall
      have hsame := (hkeeps.owners htask).trans (owners_arguments hargs)
      exact hsame ▸ (Admitted.head hpoint).owner rfl howner
  | await => exact (Admitted.head hpoint).owner rfl howner
  | @deliver fuel pos id start task m' htake =>
      have hkeeps : KeepsAll (fun m => m.owners = start.owners) (Eval.takeTask l.program id pos) :=
        keeps_takeTask (invariant_owners l fuel start.owners) pos trivial
      exact hkeeps.owners htake ▸ (Admitted.head hpoint).owner rfl howner

end Accesses
end Scriptlet
