import Scriptlet.Folding.State
import Scriptlet.Proofs.Evaluation.Frames

/-!
# Calls without effects

A function without side effects calls nothing and assigns only its own variables.
When such a call can be run at compile time, the machine runs it to the same result,
and leaves everything as it was once the frame of the call is gone.
-/

namespace Scriptlet

theorem Run.bind_done {ε σ α β : Type} {x : Run ε σ α} {f : α -> Run ε σ β} {s s' : σ} {a : α}
    (h : x s = .done a s') : (x >>= f) s = f a s' := by
  rw [Run.bind_apply, h]

theorem ConstEval.bind_eq_some {α β : Type} {x : ConstEval α} {f : α -> ConstEval β}
    {c : ConstState} {r : β × ConstState} :
    (x >>= f) c = some r <-> exists a c', x c = some (a, c') ∧ f a c' = some r := by
  show (x c >>= fun answer => f answer.1 answer.2) = some r <-> _
  cases x c with
  | none => simp
  | some answer =>
      constructor
      · intro h
        exact ⟨answer.1, answer.2, rfl, h⟩
      · intro h
        rcases h with ⟨a, c', hanswer, h⟩
        cases hanswer
        exact h

def ConstFlow.flow : ConstFlow -> Flow
  | next => .next
  | returned value => .returned value

section Follows

variable {σ : Type} {p : Program} {f : FunId} {m : Machine σ} {frame : Frame}

/-- The run at compile time stands in one call of the function, and the machine has a
frame that holds what is known of the variables of the function. -/
structure Follows (p : Program) (f : FunId) (m : Machine σ) (c : ConstState) (frame : Frame) :
    Prop where
  isOf : frame.IsOf p f
  tasks : frame.tasks = .empty
  values : exists values, c.frames = [{ owner := f, values := values }] ∧
    frame.Holds p f values
  globals : forall id v, (p.variableAt id).owner = none -> c.globals.get? id = some v ->
    m.read p id = some v

variable {c c' : ConstState}

theorem Follows.readVar (h : Follows p f m c frame) {id : VarId} {v : Value} {pos : Pos}
    (hread : ConstEval.readVar p id c = some (v, c')) :
    c' = c ∧ Eval.readVar p id pos (m.push frame) = .done v (m.push frame) := by
  rcases h.values with ⟨values, hframes, hvalues⟩
  have hvalue : c' = c ∧ (m.push frame).read p id = some v := by
    rcases Option.map_eq_some_iff.mp hread with ⟨w, hw, hpair⟩
    cases hpair
    refine ⟨rfl, ?_⟩
    cases howner : (p.variableAt id).owner with
    | none =>
        rw [howner] at hw
        rw [m.read_push_global howner]
        exact h.globals id _ howner hw
    | some owner =>
        rw [howner] at hw
        simp only [ConstEval.frameOf, hframes] at hw
        by_cases hf : f = owner
        · subst hf
          rw [m.read_push_local h.isOf.owner howner]
          exact hvalues id _ howner (by simpa using hw)
        · simp [hf] at hw
  refine ⟨hvalue.1, ?_⟩
  simp only [Eval.readVar, hvalue.2]

theorem Follows.writeVar (h : Follows p f m c frame) (htables : p.Tables) {id : VarId}
    (hid : (p.variableAt id).owner = some f) {v : Value} {pos : Pos}
    (hwrite : ConstEval.writeVar p id v c = some ((), c')) :
    exists frame', Follows p f m c' frame' ∧
      Eval.writeVar p id v pos (m.push frame) = .done () (m.push frame') := by
  rcases h.values with ⟨values, hframes, hvalues⟩
  have htype : (p.variableAt id).type = v.type := by
    by_cases htype : (p.variableAt id).type = v.type
    · exact htype
    · simp [ConstEval.writeVar, htype] at hwrite
  simp only [ConstEval.writeVar, htype, hid, hframes, ConstEval.updateFrame, if_true,
    Option.map_some, Option.some.injEq, Prod.mk.injEq, true_and] at hwrite
  subst hwrite
  refine ⟨frame.setSlot (p.variableAt id).slot v, ⟨h.isOf.setSlot _ v, h.tasks, ⟨_, rfl, ?_⟩,
    h.globals⟩, ?_⟩
  · exact hvalues.setSlot h.isOf htables hid v
  · simp only [Eval.writeVar, htype, if_true, m.store?_push_local h.isOf.owner hid]

theorem ConstEval.ofOperator_eq_some {result : Except OpError Value} {v : Value}
    (h : ConstEval.ofOperator result c = some (v, c')) : result = .ok v ∧ c' = c := by
  cases result with
  | ok w =>
      cases h
      exact ⟨rfl, rfl⟩
  | error e => cases h

theorem Follows.expr (h : Follows p f m c frame) (invoke : ConstEval.Invoke)
    (invoke' : Invoke σ) : forall (e : Expr) {c' : ConstState} {v : Value}, e.hasCall = false ->
    ConstEval.expr p invoke e c = some (v, c') ->
    c' = c ∧ Eval.expr p invoke' e (m.push frame) = .done v (m.push frame)
  | .literal _ value, _, _, _, heval => by
      cases heval
      exact ⟨rfl, rfl⟩
  | .const _ id, _, _, _, heval => by
      cases heval
      exact ⟨rfl, rfl⟩
  | .var pos id, _, _, _, heval => h.readVar heval
  | .unary pos op operand, _, _, hcall, heval => by
      rcases ConstEval.bind_eq_some.mp heval with ⟨w, c₁, hoperand, happly⟩
      rcases h.expr invoke invoke' operand hcall hoperand with ⟨hsame, hrun⟩
      rcases ConstEval.ofOperator_eq_some happly with ⟨hresult, hsame'⟩
      refine ⟨hsame'.trans hsame, ?_⟩
      rw [Eval.expr, Run.bind_done hrun, hresult]
      rfl
  | .binary pos op left right, _, _, hcall, heval => by
      rw [Expr.hasCall, Bool.or_eq_false_iff] at hcall
      rcases ConstEval.bind_eq_some.mp heval with ⟨l, c₁, hleft, heval⟩
      rcases h.expr invoke invoke' left hcall.1 hleft with ⟨hsame, hleft⟩
      rw [hsame] at heval
      rcases ConstEval.bind_eq_some.mp heval with ⟨r, c₂, hright, happly⟩
      rcases h.expr invoke invoke' right hcall.2 hright with ⟨hsame₂, hright⟩
      rcases ConstEval.ofOperator_eq_some happly with ⟨hresult, hsame'⟩
      refine ⟨hsame'.trans hsame₂, ?_⟩
      rw [Eval.expr, Run.bind_done hleft, Run.bind_done hright, hresult]
      rfl
  | .call pos g args, _, _, hcall, _ => nomatch hcall

theorem Follows.condition (h : Follows p f m c frame) (invoke : ConstEval.Invoke)
    (invoke' : Invoke σ) (place : TypedPlace) {cond : Expr} {b : Bool}
    (hcall : cond.hasCall = false) (heval : ConstEval.condition p invoke cond c = some (b, c')) :
    c' = c ∧ Eval.condition p invoke' place cond (m.push frame) = .done b (m.push frame) := by
  rcases ConstEval.bind_eq_some.mp heval with ⟨v, c₁, hexpr, htruth⟩
  rcases h.expr invoke invoke' cond hcall hexpr with ⟨rfl, hrun⟩
  cases v with
  | bool truth =>
      cases htruth
      refine ⟨rfl, ?_⟩
      rw [Eval.condition, Run.bind_done hrun]
      rfl
  | int n => cases htruth
  | float x => cases htruth

/-!
# Statements
-/

def Simulates (p : Program) (f : FunId) (m : Machine σ) (x : ConstEval ConstFlow)
    (y : Eval σ Flow) : Prop :=
  forall c c' frame flow, Follows p f m c frame -> x c = some (flow, c') ->
    exists frame', Follows p f m c' frame' ∧ y (m.push frame) = .done flow.flow (m.push frame')

theorem Follows.spend (h : Follows p f m c frame)
    (hspend : ConstEval.spend c = some ((), c')) : Follows p f m c' frame := by
  unfold ConstEval.spend at hspend
  cases hbudget : c.budget with
  | zero =>
      rw [hbudget] at hspend
      cases hspend
  | succ budget =>
      rw [hbudget] at hspend
      cases hspend
      exact ⟨h.isOf, h.tasks, h.values, h.globals⟩

theorem Simulates.loop {cond : ConstEval Bool} {cond' : Eval σ Bool} {body : ConstEval ConstFlow}
    {body' : Eval σ Flow}
    (hcond : forall c c' frame b, Follows p f m c frame -> cond c = some (b, c') ->
      c' = c ∧ cond' (m.push frame) = .done b (m.push frame))
    (hbody : Simulates p f m body body') (limit : Nat) : forall fuel, limit < fuel ->
    Simulates p f m (ConstEval.loopWithin cond body limit)
      (Eval.loopWithin cond' body' fuel) := by
  induction limit with
  | zero =>
      intro fuel hfuel c c' frame flow h heval
      cases fuel with
      | zero => exact absurd hfuel (Nat.lt_irrefl 0)
      | succ fuel =>
          rcases ConstEval.bind_eq_some.mp heval with ⟨b, c₁, hb, heval⟩
          rcases hcond c c₁ frame b h hb with ⟨rfl, hrun⟩
          cases b with
          | true => cases heval
          | false =>
              cases heval
              refine ⟨frame, h, ?_⟩
              rw [Eval.loopWithin, Run.bind_done hrun]
              rfl
  | succ limit ih =>
      intro fuel hfuel c c' frame flow h heval
      cases fuel with
      | zero => exact absurd hfuel (Nat.not_lt_zero _)
      | succ fuel =>
          rcases ConstEval.bind_eq_some.mp heval with ⟨b, c₁, hb, heval⟩
          rcases hcond c c₁ frame b h hb with ⟨rfl, hrun⟩
          cases b with
          | false =>
              cases heval
              refine ⟨frame, h, ?_⟩
              rw [Eval.loopWithin, Run.bind_done hrun]
              rfl
          | true =>
              rcases ConstEval.bind_eq_some.mp heval with ⟨⟨⟩, c₂, hspend, heval⟩
              rcases ConstEval.bind_eq_some.mp heval with ⟨round, c₃, hround, heval⟩
              rcases hbody c₂ c₃ frame round (h.spend hspend) hround with ⟨frame₁, h₁, hrun₁⟩
              cases round with
              | next =>
                  rcases ih fuel (Nat.lt_of_succ_lt_succ hfuel) c₃ c' frame₁ flow h₁ heval with
                    ⟨frame₂, h₂, hrun₂⟩
                  refine ⟨frame₂, h₂, ?_⟩
                  rw [Eval.loopWithin, Run.bind_done hrun, if_pos rfl, Run.bind_done hrun₁]
                  exact hrun₂
              | returned value =>
                  cases heval
                  refine ⟨frame₁, h₁, ?_⟩
                  rw [Eval.loopWithin, Run.bind_done hrun, if_pos rfl, Run.bind_done hrun₁]
                  rfl

theorem Simulates.store (htables : p.Tables) {id : VarId}
    (hid : (p.variableAt id).owner = some f) (invoke : ConstEval.Invoke) (invoke' : Invoke σ)
    {value : Expr} (hcall : value.hasCall = false) (pos : Pos) :
    Simulates p f m
      (do
        let v ← ConstEval.expr p invoke value
        ConstEval.writeVar p id v
        return .next)
      (do
        let v ← Eval.expr p invoke' value
        Eval.writeVar p id v pos
        return .next) := by
  intro c c' frame flow h heval
  rcases ConstEval.bind_eq_some.mp heval with ⟨v, c₁, hvalue, hstore⟩
  rcases h.expr invoke invoke' value hcall hvalue with ⟨rfl, hrun⟩
  rcases ConstEval.bind_eq_some.mp hstore with ⟨⟨⟩, c₂, hwrite, hnext⟩
  cases hnext
  rcases h.writeVar htables hid hwrite with ⟨frame', h', hstored⟩
  refine ⟨frame', h', ?_⟩
  rw [Run.bind_done hrun, Run.bind_done hstored]
  rfl

section Statements

variable {limit fuel : Nat}

def DeclaresOwn (p : Program) (f : FunId) (ms : List Mention) : Prop :=
  forall id, .declareVar id ∈ ms -> (p.variableAt id).owner = some f

theorem DeclaresOwn.mono {ms ms' : List Mention} (h : DeclaresOwn p f ms') (hms : ms ⊆ ms') :
    DeclaresOwn p f ms :=
  fun id hid => h id (hms hid)

mutual

theorem simulates_stmt (htables : p.Tables) (invoke : ConstEval.Invoke) (invoke' : Invoke σ)
    (hfuel : limit < fuel) : forall s : Stmt, p.stmtHasEffects f s = false ->
    DeclaresOwn p f s.mentions ->
    Simulates p f m (ConstEval.stmt p limit invoke s) (Eval.stmt p fuel invoke' s)
  | .constDecl _ _, _, _ => fun _ _ frame _ h heval => by
      cases heval
      exact ⟨frame, h, rfl⟩
  | .funDecl _ _, _, _ => fun _ _ frame _ h heval => by
      cases heval
      exact ⟨frame, h, rfl⟩
  | .varDecl _ _ none, _, _ => fun _ _ frame _ h heval => by
      cases heval
      exact ⟨frame, h, rfl⟩
  | .varDecl pos id (some init), heffects, hown =>
      Simulates.store htables (hown id List.mem_cons_self) invoke invoke' heffects pos
  | .block _ body, heffects, hown => simulates_stmts htables invoke invoke' hfuel body heffects hown
  | .ifThen _ cond _ body, heffects, hown => by
      rw [Program.stmtHasEffects, Bool.or_eq_false_iff] at heffects
      have hbody := simulates_stmts htables invoke invoke' hfuel body heffects.2
        (hown.mono (List.subset_append_right _ _))
      intro c c' frame flow h heval
      rcases ConstEval.bind_eq_some.mp heval with ⟨b, c₁, hcond, heval⟩
      rcases h.condition invoke invoke' .ifCondition heffects.1 hcond with ⟨rfl, hrun⟩
      cases b with
      | true =>
          rcases hbody _ _ _ _ h heval with ⟨frame', h', hrun'⟩
          refine ⟨frame', h', ?_⟩
          rw [Eval.stmt, Run.bind_done hrun, if_pos rfl]
          exact hrun'
      | false =>
          cases heval
          refine ⟨frame, h, ?_⟩
          rw [Eval.stmt, Run.bind_done hrun]
          rfl
  | .whileDo _ cond _ body, heffects, hown => by
      rw [Program.stmtHasEffects, Bool.or_eq_false_iff] at heffects
      have hbody := simulates_stmts htables invoke invoke' hfuel body heffects.2
        (hown.mono (List.subset_append_right _ _))
      exact Simulates.loop
        (fun _ _ _ _ h hcond => h.condition invoke invoke' .whileCondition heffects.1 hcond)
        hbody limit fuel hfuel
  | .ret _ value, heffects, _ => fun _ _ frame _ h heval => by
      rcases ConstEval.bind_eq_some.mp heval with ⟨v, c₁, hvalue, hreturn⟩
      rcases h.expr invoke invoke' value heffects hvalue with ⟨rfl, hrun⟩
      cases hreturn
      refine ⟨frame, h, ?_⟩
      rw [Eval.stmt, Run.bind_done hrun]
      rfl
  | .assign pos target value, heffects, _ => by
      rw [Program.stmtHasEffects, Bool.or_eq_false_iff] at heffects
      exact Simulates.store htables (by simpa using heffects.1) invoke invoke' heffects.2 pos
  | .call _ _ _, heffects, _ => nomatch heffects
  | .async _ _ _ _, heffects, _ => nomatch heffects
  | .await _ _, heffects, _ => nomatch heffects

theorem simulates_stmts (htables : p.Tables) (invoke : ConstEval.Invoke) (invoke' : Invoke σ)
    (hfuel : limit < fuel) : forall body : List Stmt, p.stmtsHaveEffects f body = false ->
    DeclaresOwn p f (Stmt.listMentions body) ->
    Simulates p f m (ConstEval.stmts p limit invoke body) (Eval.stmts p fuel invoke' body)
  | [], _, _ => fun _ _ frame _ h heval => by
      cases heval
      exact ⟨frame, h, rfl⟩
  | s :: rest, heffects, hown => by
      rw [Program.stmtsHaveEffects, Bool.or_eq_false_iff] at heffects
      have hs := simulates_stmt htables invoke invoke' hfuel s heffects.1
        (hown.mono (List.subset_append_left _ _))
      have hrest := simulates_stmts htables invoke invoke' hfuel rest heffects.2
        (hown.mono (List.subset_append_right _ _))
      intro c c' frame flow h heval
      rcases ConstEval.bind_eq_some.mp heval with ⟨first, c₁, hfirst, heval⟩
      rcases hs c c₁ frame first h hfirst with ⟨frame₁, h₁, hrun₁⟩
      cases first with
      | next =>
          rcases hrest c₁ c' frame₁ flow h₁ heval with ⟨frame₂, h₂, hrun₂⟩
          refine ⟨frame₂, h₂, ?_⟩
          rw [Eval.stmts, Run.bind_done hrun₁]
          exact hrun₂
      | returned value =>
          cases heval
          refine ⟨frame₁, h₁, ?_⟩
          rw [Eval.stmts, Run.bind_done hrun₁]
          rfl

end

end Statements

/-!
# Calls
-/

theorem checkResult_of_yielded {function : Function} {flow : ConstFlow} {value : Option Value}
    (h : ConstEval.yielded? function.result flow = some value) (pos : Pos) :
    (Eval.checkResult function pos flow.flow.value? : Eval σ (Option Value)) = pure value := by
  cases flow with
  | next =>
      by_cases hresult : function.result = .none
      · simp only [ConstEval.yielded?, hresult, if_true, Option.some.injEq] at h
        subst h
        simp [Eval.checkResult, ConstFlow.flow, Flow.value?, hresult]
      · simp [ConstEval.yielded?, hresult] at h
  | returned v =>
      by_cases hresult : v.type = function.result
      · simp only [ConstEval.yielded?, hresult, if_true, Option.some.injEq] at h
        subst h
        simp [Eval.checkResult, ConstFlow.flow, Flow.value?, hresult]
      · simp [ConstEval.yielded?, hresult] at h

def ConstFrame.ofCall (p : Program) (f : FunId) (args : List Value) : ConstFrame where
  owner := f
  values := Valuation.ofList (((p.function f).params.map (·.var)).zip args)

def callStart (p : Program) (depth : Nat) (globals : Valuation) (f : FunId) (args : List Value) :
    ConstState :=
  { globals := globals, frames := [.ofCall p f args], budget := depth }

theorem evalCall_eq_some {quota : Nat} {globals globals' : Valuation} {args : List Value}
    {value : Option Value} (h : evalCall p quota globals f args = some (value, globals')) :
    exists depth block flow c', quota = depth + 1 ∧ (p.function f).body = some block ∧
      ConstEval.stmts p depth (ConstEval.invokeWithin p depth) block.body
        (callStart p depth globals f args) = some (flow, c') ∧
      ConstEval.yielded? (p.function f).result flow = some value := by
  rcases Option.map_eq_some_iff.mp h with ⟨⟨_, last⟩, hinvoke, hpair⟩
  cases hpair
  cases quota with
  | zero => cases hinvoke
  | succ depth =>
      rcases ConstEval.bind_eq_some.mp hinvoke with ⟨⟨⟩, c₁, hspend, hentered⟩
      cases hspend
      cases hbody : (p.function f).body with
      | none =>
          simp only [hbody] at hentered
          cases hentered
      | some block =>
          simp only [hbody] at hentered
          rcases ConstEval.bind_eq_some.mp hentered with ⟨flow, c₂, hframe, hyield⟩
          rcases ConstEval.bind_eq_some.mp hframe with ⟨⟨⟩, c₃, hpush, hinside⟩
          cases hpush
          rcases ConstEval.bind_eq_some.mp hinside with ⟨_, c₄, hstmts, hpop⟩
          cases hpop
          rcases Option.map_eq_some_iff.mp hyield with ⟨_, hyielded, hpair⟩
          cases hpair
          exact ⟨depth, block, flow, c₄, rfl, rfl, hstmts, hyielded⟩

/-- A call without effects yields in a run what it yields at compile time, and leaves
the machine as it is. -/
theorem invoke_of_evalCall {l : Loaded σ} (htables : l.program.Tables)
    (hown : DeclaresOwn l.program f (l.program.mentionsOf f))
    (hpure : l.program.hasSideEffects f = false) {globals globals' : Valuation}
    (hglobals : forall id v, (l.program.variableAt id).owner = none ->
      globals.get? id = some v -> m.read l.program id = some v)
    {quota fuel : Nat} (hfuel : quota < fuel) {args : List Value} {value : Option Value}
    (hcall : evalCall l.program quota globals f args = some (value, globals')) (pos : Pos) :
    l.invoke fuel f args pos m = .done value m := by
  rcases evalCall_eq_some hcall with ⟨depth, block, flow, c', rfl, hbody, hstmts, hyielded⟩
  cases fuel with
  | zero => exact absurd hfuel (Nat.not_lt_zero _)
  | succ fuel =>
      have heffects : l.program.stmtsHaveEffects f block.body = false := by
        rw [Program.hasSideEffects, hbody] at hpure
        exact hpure
      have hmentions := Program.mentionsOf_of_body hbody
      rw [hmentions] at hown
      have hframe := holds_callFrame (ρ := TaskResult) (f := f) htables args
      have hstart : Follows l.program f m (callStart l.program depth globals f args)
          (Eval.callFrame l.program f args) :=
        ⟨hframe.1, rfl, ⟨_, rfl, hframe.2⟩, hglobals⟩
      have hsimulates : Simulates l.program f m _ (Eval.stmts l.program fuel (l.invoke fuel) _) :=
        simulates_stmts htables (ConstEval.invokeWithin l.program depth) (l.invoke fuel)
          (Nat.lt_of_succ_lt_succ hfuel) block.body heffects hown
      rcases hsimulates _ _ _ _ hstart hstmts with ⟨frame', h', hrun⟩
      have hinFrame : Eval.inFrame l.program (Eval.callFrame l.program f args)
          (Eval.stmts l.program fuel (l.invoke fuel) block.body) m = .done flow.flow m := by
        rw [Eval.inFrame, hrun, Outcome.mapState, Machine.pop_push m _ h'.tasks]
      rw [Loaded.invoke]
      simp only [hbody]
      rw [Run.bind_done hinFrame, checkResult_of_yielded hyielded]
      rfl

end Follows
end Scriptlet
