import Scriptlet.Evaluation.Observation
import Scriptlet.Proofs.Evaluation.Hosts

/-!
# More fuel

Fuel bounds a run and does nothing else: what ends with some fuel ends in the same way
with more of it.  So what a program shows does not depend on the fuel.
-/

namespace Scriptlet

abbrev Lengthens {σ α : Type} (x y : Eval σ α) : Prop :=
  Run.Matches Eq Eq True x y

section Rules

variable {σ α : Type} {p : Program}

theorem lengthens_self (x : Eval σ α) : Lengthens x x := by
  intro m m' hm
  cases hm
  exact .refl _

theorem lengthens_exhausted (y : Eval σ α) : Lengthens Run.exhausted y :=
  fun _ _ _ => .cut trivial

theorem matches_asTask {loose : Prop} {call call' : Eval σ (Option Value)} {m : Machine σ}
    (h : (call m.forTask).Matches Eq Eq loose (call' m.forTask)) :
    (Eval.asTask call m).Matches Eq Eq loose (Eval.asTask call' m) := by
  unfold Eval.asTask
  generalize call m.forTask = first at h
  generalize call' m.forTask = second at h
  cases h with
  | done hsame =>
      cases hsame
      exact .done rfl
  | failed herror hsame =>
      cases herror
      cases hsame
      exact .done rfl
  | unfinished => exact .unfinished
  | cut hloose => exact .cut hloose

theorem lengthens_asTask {call call' : Eval σ (Option Value)} (h : Lengthens call call') :
    Lengthens (Eval.asTask call) (Eval.asTask call') := by
  intro m m' hm
  cases hm
  exact matches_asTask (h m.forTask m.forTask rfl)

theorem lengthens_loopWithin {cond cond' : Eval σ Bool} {body body' : Eval σ Flow}
    (hcond : Lengthens cond cond') (hbody : Lengthens body body') {limit limit' : Nat}
    (hlimit : limit ≤ limit') :
    Lengthens (Eval.loopWithin cond body limit) (Eval.loopWithin cond' body' limit') := by
  induction limit generalizing limit' with
  | zero => exact lengthens_exhausted _
  | succ limit ih =>
      cases limit' with
      | zero => exact absurd hlimit (Nat.not_succ_le_zero limit)
      | succ limit' =>
          apply hcond.bind
          intro holds
          cases holds with
          | false => exact lengthens_self _
          | true =>
              apply hbody.bind
              intro flow
              cases flow with
              | next => exact ih (Nat.le_of_succ_le_succ hlimit)
              | returned value => exact lengthens_self _

end Rules

/-!
# Trees
-/

section Trees

variable {σ : Type} {p : Program} {invoke invoke' : Invoke σ}
  (hcalls : forall f values pos, Lengthens (invoke f values pos) (invoke' f values pos))

include hcalls

theorem lengthens_startCall (pos : Pos) (target : VarId) (f : FunId) (values : List Value) :
    Lengthens (Eval.startCall p invoke pos target f values)
      (Eval.startCall p invoke' pos target f values) := by
  apply (lengthens_self _).bind
  intro _
  exact (lengthens_asTask (hcalls f values pos)).bind fun _ => lengthens_self _

theorem lengthens_actions : (Actions.plain p invoke).Match (fun _ => True) Eq Eq True
    (Actions.plain p invoke') where
  raise := fun _ => matches_fail rfl
  reads := fun _ _ => lengthens_self _
  writes := fun _ _ _ _ => lengthens_self _
  calls := fun values pos _ => hcalls _ values pos
  starts := fun pos values _ => lengthens_startCall hcalls pos _ _ values
  awaits := fun _ _ => lengthens_self _
  exhausted := lengthens_exhausted _

theorem lengthens_expr (e : Expr) :
    Lengthens (Eval.expr p invoke e) (Eval.expr p invoke' e) := by
  have hwalk := matches_expr (p := p) (lengthens_actions (p := p) hcalls) e (admitted_true _)
  rwa [walk_expr_plain, walk_expr_plain] at hwalk

theorem lengthens_arguments (f : FunId) (pos : Pos) (params : List Param) (args : List Expr) :
    Lengthens (Eval.arguments p invoke f pos params args)
      (Eval.arguments p invoke' f pos params args) := by
  have hwalk := matches_arguments (p := p) (lengthens_actions (p := p) hcalls) f pos params args
    (admitted_true _)
  rwa [walk_arguments_plain, walk_arguments_plain] at hwalk

theorem lengthens_condition (place : TypedPlace) (cond : Expr) :
    Lengthens (Eval.condition p invoke place cond) (Eval.condition p invoke' place cond) := by
  have hwalk := matches_condition (p := p) (lengthens_actions (p := p) hcalls) place
    (admitted_true cond.mentions)
  rwa [walk_condition_plain, walk_condition_plain] at hwalk

end Trees

section Statements

variable {σ : Type} {p : Program} {invoke invoke' : Invoke σ} {fuel fuel' : Nat}

mutual

theorem lengthens_stmt
    (hcalls : forall f values pos, Lengthens (invoke f values pos) (invoke' f values pos))
    (hfuel : fuel ≤ fuel') : forall s : Stmt,
    Lengthens (Eval.stmt p fuel invoke s) (Eval.stmt p fuel' invoke' s)
  | .constDecl _ _ => lengthens_self _
  | .funDecl _ _ => lengthens_self _
  | .varDecl _ _ none => lengthens_self _
  | .varDecl _ _ (some init) => (lengthens_expr hcalls init).bind fun _ => lengthens_self _
  | .block _ body => lengthens_stmts hcalls hfuel body
  | .ifThen _ cond _ body => by
      apply (lengthens_condition hcalls .ifCondition cond).bind
      intro holds
      cases holds with
      | false => exact lengthens_self _
      | true => exact lengthens_stmts hcalls hfuel body
  | .whileDo _ cond _ body =>
      lengthens_loopWithin (lengthens_condition hcalls .whileCondition cond)
        (lengthens_stmts hcalls hfuel body) hfuel
  | .ret _ value => (lengthens_expr hcalls value).bind fun _ => lengthens_self _
  | .assign _ _ value => (lengthens_expr hcalls value).bind fun _ => lengthens_self _
  | .call pos f args => by
      apply (lengthens_arguments hcalls f pos _ args).bind
      intro values
      exact (hcalls f values pos).bind fun _ => lengthens_self _
  | .async pos target f args => by
      rw [Eval.stmt, Eval.stmt, Eval.startTask, Eval.startTask, bind_assoc, bind_assoc]
      apply (lengthens_arguments hcalls f pos _ args).bind
      intro values
      exact (lengthens_startCall hcalls pos target f values).bind fun _ => lengthens_self _
  | .await _ _ => lengthens_self _

theorem lengthens_stmts
    (hcalls : forall f values pos, Lengthens (invoke f values pos) (invoke' f values pos))
    (hfuel : fuel ≤ fuel') : forall body : List Stmt,
    Lengthens (Eval.stmts p fuel invoke body) (Eval.stmts p fuel' invoke' body)
  | [] => lengthens_self _
  | s :: rest => by
      apply (lengthens_stmt hcalls hfuel s).bind
      intro flow
      cases flow with
      | next => exact lengthens_stmts hcalls hfuel rest
      | returned value => exact lengthens_self _

end
end Statements

/-!
# Calls and runs
-/

namespace Loaded

variable {σ : Type} (l : Loaded σ)

theorem lengthens_invoke {fuel fuel' : Nat} (hfuel : fuel ≤ fuel') (f : FunId)
    (values : List Value) (pos : Pos) :
    Lengthens (l.invoke fuel f values pos) (l.invoke fuel' f values pos) := by
  -- By induction on the smaller fuel.
  induction fuel generalizing fuel' f values pos with
  | zero => exact lengthens_exhausted _
  | succ fuel ih =>
      cases fuel' with
      | zero => exact absurd hfuel (Nat.not_succ_le_zero fuel)
      | succ fuel' =>
          have hless := Nat.le_of_succ_le_succ hfuel
          unfold Loaded.invoke
          cases hbody : (l.program.function f).body with
          | none =>
              simp only [hbody]
              exact lengthens_self _
          | some block =>
              simp only [hbody]
              have hbody := lengthens_stmts (p := l.program) (ih hless) hless block.body
              apply (hbody.around _ _).bind
              · intro flow
                exact lengthens_self _
              · exact fun _ _ hm => congrArg (Machine.push · _) hm
              · exact fun _ _ hm => congrArg (Machine.pop _) hm

theorem lengthens_run {fuel fuel' : Nat} (hfuel : fuel ≤ fuel') :
    Lengthens (l.run fuel) (l.run fuel') :=
  (lengthens_stmts (l.lengthens_invoke hfuel) hfuel l.program.root).bind
    fun _ => lengthens_self _

end Loaded

theorem observe_mono {l : Loaded Host} {fuel fuel' : Nat} {input : List String} {o : Observation}
    (hfuel : fuel ≤ fuel') (h : l.observe fuel input = some o) :
    l.observe fuel' input = some o := by
  have hrun := l.lengthens_run hfuel _ _ (Eq.refl (Machine.initial l.program (.ofInput input)))
  unfold Loaded.observe at h ⊢
  generalize l.run fuel (.initial l.program (.ofInput input)) = first at hrun h
  generalize l.run fuel' (.initial l.program (.ofInput input)) = second at hrun
  cases hrun with
  | done hsame =>
      cases hsame
      exact h
  | failed herror hsame =>
      cases herror
      cases hsame
      exact h
  | unfinished => cases h
  | cut _ => cases h

/-- Fuel does not matter for what is observed. -/
theorem observe_unique {l : Loaded Host} {fuel fuel' : Nat} {input : List String}
    {o o' : Observation} (h : l.observe fuel input = some o) (h' : l.observe fuel' input = some o') :
    o = o' := by
  rcases Nat.le_total fuel fuel' with hle | hle
  · exact Option.some.inj ((observe_mono hle h).symm.trans h')
  · exact Option.some.inj (h.symm.trans (observe_mono hle h'))

end Scriptlet
