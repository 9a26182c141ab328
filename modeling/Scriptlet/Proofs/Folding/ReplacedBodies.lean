import Scriptlet.Proofs.Evaluation.EndsAlike
import Scriptlet.Proofs.Evaluation.Fuel
import Scriptlet.Proofs.Evaluation.Shapes
import Scriptlet.Proofs.Folding.EditedPrograms

/-!
# Programs with other bodies

If in the runs of a program other bodies may stand in the place of its own, then the program
with these bodies in its table runs as the program itself does.  Bodies are compared in the
runs of the one program, so nothing has to be known of the other one beforehand.
-/

namespace Scriptlet

/-!
# The same shell
-/

section Shell

variable {σ : Type} {p q : Program} (h : p.SameShell q)

include h

theorem Program.SameShell.constant (id : ConstId) : q.constant id = p.constant id := by
  rw [Program.constant, h.constants, ← Program.constant]

theorem Program.SameShell.variableName : Eval.variableName q = Eval.variableName p := by
  funext id
  rw [Eval.variableName, h.variableAt, ← Eval.variableName]

theorem Program.SameShell.native {f : FunId} (hnone : (p.function f).body = none) :
    q.function f = p.function f := by
  have hnative : (q.function f).isNative = true := by
    rw [h.isNative, Function.isNative, hnone]
    rfl
  have hemptied : forall g : Function, g.body = none -> g.emptied = g := by
    rintro ⟨⟩ ⟨⟩
    rfl
  rw [← hemptied _ hnone, ← hemptied _ (Option.isNone_iff_eq_none.mp hnative), h.function]

theorem Program.SameShell.body {f : FunId} {block : Block}
    (hblock : (p.function f).body = some block) :
    exists block', (q.function f).body = some block' := by
  have huser : (q.function f).isNative = false := by
    rw [h.isNative, Function.isNative, hblock]
    rfl
  exact Option.isSome_iff_exists.mp (Option.isNone_eq_false_iff.mp huser)

theorem Program.SameShell.shaped :
    Machine.Shaped q = (Machine.Shaped p : Machine σ -> Prop) := by
  have hof : forall frame : Frame, frame.IsOf q frame.owner <-> frame.IsOf p frame.owner := by
    intro frame
    have hcount := h.slotCount (some frame.owner)
    simp only [Program.slotCount] at hcount
    exact ⟨fun hframe => ⟨rfl, hcount ▸ hframe.slots⟩, fun hframe => ⟨rfl, hcount ▸ hframe.slots⟩⟩
  funext m
  apply propext
  constructor
  · intro hm
    exact ⟨h.globalCount ▸ hm.globals, fun frame hframe => (hof frame).mp (hm.frames frame hframe)⟩
  · intro hm
    exact ⟨h.globalCount ▸ hm.globals, fun frame hframe => (hof frame).mpr (hm.frames frame hframe)⟩

theorem plain_shell (invoke : Invoke σ) : Actions.plain q invoke = Actions.plain p invoke := by
  have hread : forall m : Machine σ, m.read q = m.read p := by
    intro m
    funext id
    simp only [Machine.read, h.variableAt]
  have hstore : forall m : Machine σ, m.store? q = m.store? p := by
    intro m
    funext id v
    simp only [Machine.store?, h.variableAt]
  have htasks : forall m : Machine σ, m.tasksFor q = m.tasksFor p := by
    intro m
    funext id
    simp only [Machine.tasksFor, h.variableAt]
  have hupdate : forall m : Machine σ, m.updateTasks? q = m.updateTasks? p := by
    intro m
    funext id change
    simp only [Machine.updateTasks?, h.variableAt]
  have hwrite : Eval.writeVar q = (Eval.writeVar p : _ -> _ -> _ -> Eval σ Unit) := by
    funext id v pos m
    simp only [Eval.writeVar, h.variableAt, hstore]
  have hcheck : Eval.checkTarget q = (Eval.checkTarget p : _ -> _ -> Eval σ Unit) := by
    funext target pos m
    simp only [Eval.checkTarget, h.variableName, htasks]
  have hadd : Eval.addTask q = (Eval.addTask p : _ -> Eval σ Unit) := by
    funext task m
    simp only [Eval.addTask, h.variableName, hupdate]
  have htake : Eval.takeTask q = (Eval.takeTask p : _ -> _ -> Eval σ PendingTask) := by
    funext target pos m
    simp only [Eval.takeTask, h.variableName, htasks, hupdate]
  have hdeliver : Eval.deliver q =
      (Eval.deliver p : _ -> _ -> _ -> _ -> Eval σ Unit) := by
    funext pos target function result
    rcases result with e | _ | value <;> simp only [Eval.deliver, h.variableAt, hwrite]
  unfold Actions.plain
  congr 1
  · funext id pos m
    simp only [Eval.readVar, h.variableAt, hread]
  · funext pos target f values
    simp only [Eval.startCall, h.name, hcheck, hadd]
  · funext pos target
    simp only [Eval.awaitTask, htake, hdeliver]

section Walks

variable {m : Type -> Type} [Monad m] (acts : Actions m)

mutual

theorem walk_expr_shell : forall e : Expr, Walk.expr acts q e = Walk.expr acts p e
  | .literal _ _ => rfl
  | .const _ id => by
      rw [Walk.expr, Walk.expr, h.constant]
  | .var _ _ => rfl
  | .unary _ _ operand => by
      rw [Walk.expr, Walk.expr, walk_expr_shell operand]
  | .binary _ _ left right => by
      rw [Walk.expr, Walk.expr, walk_expr_shell left, walk_expr_shell right]
  | .call pos f args => by
      simp only [Walk.expr, walk_arguments_shell f pos _ args, h.params, h.name]

theorem walk_arguments_shell (f : FunId) (pos : Pos) : forall (params : List Param)
    (args : List Expr), Walk.arguments acts q f pos params args =
      Walk.arguments acts p f pos params args
  | param :: params, arg :: args => by
      simp only [Walk.arguments, Walk.checkArgument, walk_expr_shell arg,
        walk_arguments_shell f pos params args, h.variableAt, h.name]
  | [], [] => rfl
  | [], _ :: _ => rfl
  | _ :: _, [] => rfl

end

theorem walk_condition_shell (place : TypedPlace) (cond : Expr) :
    Walk.condition acts q place cond = Walk.condition acts p place cond := by
  rw [Walk.condition, Walk.condition, walk_expr_shell h acts]

theorem walk_store_shell (pos : Pos) (id : VarId) (value : Expr) :
    Walk.store acts q pos id value = Walk.store acts p pos id value := by
  rw [Walk.store, Walk.store, walk_expr_shell h acts]

end Walks
end Shell

section Statements

variable {m : Type -> Type} [Monad m] {σ : Type} {p q : Program}

mutual

theorem walk_stmt_shell (h : p.SameShell q) (acts : Actions m) (fuel : Nat) : forall s : Stmt,
    Walk.stmt acts q fuel s = Walk.stmt acts p fuel s
  | .constDecl _ _ => rfl
  | .funDecl _ _ => rfl
  | .varDecl _ _ none => rfl
  | .varDecl pos id (some init) => walk_store_shell h acts pos id init
  | .block _ body => walk_stmts_shell h acts fuel body
  | .ifThen _ cond _ body => by
      rw [Walk.stmt, Walk.stmt, walk_condition_shell h acts, walk_stmts_shell h acts fuel body]
  | .whileDo _ cond _ body => by
      rw [Walk.stmt, Walk.stmt, walk_condition_shell h acts, walk_stmts_shell h acts fuel body]
  | .ret _ value => by
      rw [Walk.stmt, Walk.stmt, walk_expr_shell h acts]
  | .assign pos target value => walk_store_shell h acts pos target value
  | .call pos f args => by
      rw [Walk.stmt, Walk.stmt, walk_arguments_shell h acts, h.params]
  | .async pos target f args => by
      rw [Walk.stmt, Walk.stmt, walk_arguments_shell h acts, h.params]
  | .await pos target => rfl

theorem walk_stmts_shell (h : p.SameShell q) (acts : Actions m) (fuel : Nat) :
    forall body : List Stmt, Walk.stmts acts q fuel body = Walk.stmts acts p fuel body
  | [] => rfl
  | s :: rest => by
      rw [Walk.stmts, Walk.stmts, walk_stmt_shell h acts fuel s, walk_stmts_shell h acts fuel rest]

end

theorem stmts_shell (h : p.SameShell q) (fuel : Nat) (invoke : Invoke σ) (body : List Stmt) :
    Eval.stmts q fuel invoke body = Eval.stmts p fuel invoke body := by
  rw [← walk_stmts_plain, ← walk_stmts_plain, plain_shell h, walk_stmts_shell h]

end Statements

/-!
# Calls that end alike
-/

section Keeping

variable {σ α : Type} {p : Program} {loose : Prop}

theorem matches_keeping {inv : Machine σ -> Prop} {x y : Eval σ α}
    (hxy : forall m, inv m -> (x m).Matches Eq Eq loose (y m)) (hkeeps : KeepsAll inv x) :
    Run.Matches Eq (fun m m' => m = m' ∧ inv m) loose x y := by
  rintro m _ ⟨rfl, hm⟩
  have hmatches := hxy m hm
  have hkept := hkeeps m hm
  generalize x m = first at hmatches hkept
  generalize y m = second at hmatches
  cases hmatches with
  | done hsame => exact .done ⟨hsame, hkept.2⟩
  | failed he hsame => exact .failed he ⟨hsame, hkept⟩
  | unfinished => exact .unfinished
  | cut hloose => exact .cut hloose

variable {invoke invoke' : Invoke σ} {closed : FunId -> Prop}
  (hshape : forall f values pos, KeepsAll (Machine.Shaped p) (invoke f values pos))
  (hcalls : forall f values pos, closed f -> forall m, m.Shaped p ->
    (invoke f values pos m).Matches Eq Eq loose (invoke' f values pos m))

include hshape hcalls

theorem shaped_actions : (Actions.plain p invoke).Match
    (fun m => forall f, m.callee? = some f -> closed f) Eq (fun m m' => m = m' ∧ m.Shaped p) loose
    (Actions.plain p invoke') where
  raise := fun _ => matches_fail rfl
  reads := fun pos _ => matches_keeping (fun _ _ => .refl _) (keeps_readVar _ pos)
  writes := fun v pos _ _ => matches_keeping (fun _ _ => .refl _)
    (keeps_writeVar_of (fun _ hm hstore => hm.store? hstore) pos)
  calls := fun values pos hclosed =>
    matches_keeping (hcalls _ values pos (hclosed _ rfl)) (hshape _ values pos)
  starts := by
    intro target f arity pos values hclosed
    have hinvariant := shaped_invariant hshape
    have hcall := fun (m : Machine σ) (hm : m.Shaped p) =>
      matches_asTask (hcalls f values pos (hclosed f rfl) m.forTask hm.forTask)
    have htask : KeepsAll (Machine.Shaped p) (Eval.asTask (invoke f values pos)) :=
      keeps_asTask (fun _ hm => hm.forTask) (fun _ _ hm htask => hm.afterTask htask)
        (hshape f values pos)
    apply (matches_keeping (fun _ _ => .refl _) (keeps_checkTarget target pos)).bind
    intro _
    apply (matches_keeping hcall htask).bind
    intro result
    exact matches_keeping (fun _ _ => .refl _) (keeps_addTask hinvariant ⟨f, 0, trivial⟩)
  awaits := fun pos _ => matches_keeping (fun _ _ => .refl _)
    (keeps_awaitTask (shaped_invariant hshape) pos trivial)
  exhausted := fun _ _ _ => .unfinished

theorem shaped_stmts (fuel : Nat) {body : List Stmt}
    (hclosed : Admitted (fun m => forall f, m.callee? = some f -> closed f)
      (Stmt.listMentions body)) {m : Machine σ} (hm : m.Shaped p) :
    (Eval.stmts p fuel invoke body m).Matches Eq Eq loose (Eval.stmts p fuel invoke' body m) := by
  have hmatch := shaped_actions hshape hcalls
  have hwalk := matches_stmts (p := p) hmatch fuel body hclosed m m ⟨rfl, hm⟩
  rw [walk_stmts_plain, walk_stmts_plain] at hwalk
  generalize Eval.stmts p fuel invoke body m = first at hwalk
  generalize Eval.stmts p fuel invoke' body m = second at hwalk
  cases hwalk with
  | done hsame => exact .done hsame.1
  | failed he hsame => exact .failed he hsame.1
  | unfinished => exact .unfinished
  | cut hloose => exact .cut hloose

end Keeping

/-!
# Calls of functions with other bodies
-/

def Eval.inCall {σ : Type} (p : Program) (f : FunId) (values : List Value) (pos : Pos)
    (body : Eval σ Flow) : Eval σ (Option Value) := do
  let flow ← Eval.inFrame p (Eval.callFrame p f values) body
  Eval.checkResult (p.function f) pos flow.value?

section InCall

variable {σ : Type} {p q : Program} {f : FunId} {values : List Value} {pos : Pos}

theorem Loaded.invoke_body (l : Loaded σ) {block : Block}
    (hblock : (l.program.function f).body = some block) (fuel : Nat) :
    l.invoke (fuel + 1) f values pos = Eval.inCall l.program f values pos
      (Eval.stmts l.program fuel (l.invoke fuel) (l.program.bodyOf f)) := by
  rw [Program.bodyOf]
  simp only [Loaded.invoke, hblock]
  rfl

theorem inCall_shell (h : p.SameShell q) (body : Eval σ Flow) :
    Eval.inCall q f values pos body = Eval.inCall p f values pos body := by
  have hframe : (Eval.callFrame q f values : Frame) = Eval.callFrame p f values := by
    have hcount := h.slotCount (some f)
    simp only [Program.slotCount] at hcount
    simp only [Eval.callFrame, h.params, h.variableAt, hcount]
  have hcheck : Eval.checkResult (q.function f) pos =
      (Eval.checkResult (p.function f) pos : _ -> Eval σ (Option Value)) := by
    funext result
    simp only [Eval.checkResult, h.result, h.name]
  have hinside : Eval.inFrame q (Eval.callFrame q f values) body =
      Eval.inFrame p (Eval.callFrame p f values) body := by
    funext m
    simp only [Eval.inFrame, hframe, h.variableName]
  simp only [Eval.inCall, hinside, hcheck]

theorem matches_inCall {loose : Prop} {body body' : Eval σ Flow} {m : Machine σ}
    (h : (body (m.push (Eval.callFrame p f values))).Matches Eq Eq loose
      (body' (m.push (Eval.callFrame p f values)))) :
    (Eval.inCall p f values pos body m).Matches Eq Eq loose
      (Eval.inCall p f values pos body' m) := by
  unfold Eval.inCall
  rw [Run.bind_apply, Run.bind_apply, Eval.inFrame, Eval.inFrame]
  generalize body (m.push (Eval.callFrame p f values)) = first at h
  generalize body' (m.push (Eval.callFrame p f values)) = second at h
  cases h with
  | done hsame =>
      cases hsame
      exact .refl _
  | failed he hsame =>
      cases he
      cases hsame
      exact .failed rfl rfl
  | unfinished => exact .unfinished
  | cut hloose => exact .cut hloose

end InCall

def Program.BodyReplaced (p : Program) (least : Nat) (body body' : List Stmt) : Prop :=
  forall (σ : Type) (l : Loaded σ) (fuel : Nat), l.program = p ->
    EndsAlike (least ≤ fuel) (Machine.Shaped p) (Eval.stmts p fuel (l.invoke fuel) body)
      (Eval.stmts p fuel (l.invoke fuel) body') fun _ _ => True

section Exchanged

variable {σ : Type} {l : Loaded σ} {invoke' : Invoke σ} {closed : FunId -> Prop}
  {least fuel : Nat} {body body' : List Stmt} (h : l.program.BodyReplaced least body body')
  (hclosed : Admitted (fun m => forall f, m.callee? = some f -> closed f)
    (Stmt.listMentions body')) {m : Machine σ} (hm : m.Shaped l.program)

include h hclosed hm

theorem Program.BodyReplaced.stmts (htables : l.program.Tables)
    (hcalls : forall f values pos, closed f -> forall m, m.Shaped l.program ->
      (l.invoke fuel f values pos m).Matches Eq Eq True (invoke' f values pos m)) :
    (Eval.stmts l.program fuel (l.invoke fuel) body m).Matches Eq Eq True
      (Eval.stmts l.program fuel invoke' body' m) := by
  have hreplaced := (h σ l fuel rfl m hm).1
  exact (hreplaced.loosen fun _ => trivial).trans
    (shaped_stmts (keepsShaped_invoke htables fuel) hcalls fuel hclosed hm)

theorem Program.BodyReplaced.stmts_back
    (hshape : forall f values pos, KeepsAll (Machine.Shaped l.program) (invoke' f values pos))
    (hcalls : forall f values pos, closed f -> forall m, m.Shaped l.program ->
      (invoke' f values pos m).Matches Eq Eq True (l.invoke (fuel + least) f values pos m)) :
    (Eval.stmts l.program fuel invoke' body' m).Matches Eq Eq True
      (Eval.stmts l.program (fuel + least) (l.invoke (fuel + least)) body m) := by
  have henough : least ≤ fuel + least := Nat.le_add_left least fuel
  rw [(h σ l (fuel + least) rfl).eq henough hm]
  exact (shaped_stmts hshape hcalls fuel hclosed hm).trans
    (lengthens_stmts (p := l.program) (l.lengthens_invoke (Nat.le_refl (fuel + least)))
      (Nat.le_add_right fuel least) body' m m rfl)

end Exchanged

/-- For the functions of a closed set the bodies of the second program may stand in the place
of those of the first one. -/
structure Program.Rebuilds (p q : Program) (closed : FunId -> Prop) (least : Nat) : Prop where
  shell : p.SameShell q
  within : forall f g, closed f -> q.Calls f g -> closed g
  bodies : forall f, closed f -> p.BodyReplaced least (p.bodyOf f) (q.bodyOf f)

section Rebuilt

variable {σ : Type} {l l' : Loaded σ} {closed : FunId -> Prop} {least : Nat}
  (h : l.program.Rebuilds l'.program closed least) (htables : l.program.Tables)
  (hnatives : l'.natives = l.natives)

include h

theorem Program.Rebuilds.admitted {f : FunId} (hf : closed f) :
    Admitted (fun m => forall g, m.callee? = some g -> closed g)
      (Stmt.listMentions (l'.program.bodyOf f)) :=
  fun m hm _ hcallee => h.within f _ hf ⟨m, hm, hcallee⟩

theorem Program.Rebuilds.keepsShaped (htables : l.program.Tables) (fuel : Nat) (f : FunId)
    (values : List Value) (pos : Pos) :
    KeepsAll (Machine.Shaped l.program) (l'.invoke fuel f values pos) := by
  have hshape := keepsShaped_invoke (h.shell.tables htables) fuel
  rw [h.shell.shaped] at hshape
  exact hshape f values pos

include hnatives

theorem invoke_native_rebuilt {f : FunId} (hnone : (l.program.function f).body = none)
    (fuel fuel' : Nat) : l'.invoke (fuel' + 1) f = l.invoke (fuel + 1) f := by
  funext values pos
  have hbody : l'.nativeBody f = l.nativeBody f := by
    rw [Loaded.nativeBody, hnatives, ← Loaded.nativeBody]
  simp only [Loaded.invoke, hnone, h.shell.native hnone, hbody]

include htables

/-- A call ends with the bodies of the second program as it does with those of the first.  By
induction on the fuel: first one body takes the place of the other, and then the calls in it
are those of the second program. -/
theorem Program.Rebuilds.invoke (fuel : Nat) : forall f values pos, closed f ->
    forall m, m.Shaped l.program ->
      (l.invoke fuel f values pos m).Matches Eq Eq True (l'.invoke fuel f values pos m) := by
  induction fuel with
  | zero => exact fun _ _ _ _ _ _ => .cut trivial
  | succ fuel ih =>
      intro f values pos hf m hm
      cases hblock : (l.program.function f).body with
      | none =>
          rw [invoke_native_rebuilt h hnatives hblock fuel fuel]
          exact .refl _
      | some block =>
          rcases h.shell.body hblock with ⟨block', hblock'⟩
          rw [l.invoke_body hblock, l'.invoke_body hblock', inCall_shell h.shell,
            stmts_shell h.shell]
          apply matches_inCall
          exact (h.bodies f hf).stmts (h.admitted hf) (hm.call htables f values) htables ih

theorem Program.Rebuilds.invoke_back (fuel : Nat) : forall f values pos, closed f ->
    forall m, m.Shaped l.program -> (l'.invoke fuel f values pos m).Matches Eq Eq True
      (l.invoke (fuel + least) f values pos m) := by
  induction fuel with
  | zero => exact fun _ _ _ _ _ _ => .cut trivial
  | succ fuel ih =>
      intro f values pos hf m hm
      rw [Nat.add_right_comm]
      cases hblock : (l.program.function f).body with
      | none =>
          rw [invoke_native_rebuilt h hnatives hblock (fuel + least) fuel]
          exact .refl _
      | some block =>
          rcases h.shell.body hblock with ⟨block', hblock'⟩
          rw [l.invoke_body hblock, l'.invoke_body hblock', inCall_shell h.shell,
            stmts_shell h.shell]
          apply matches_inCall
          exact (h.bodies f hf).stmts_back (h.admitted hf) (hm.call htables f values)
            (h.keepsShaped htables fuel) ih

end Rebuilt
end Scriptlet
