import Scriptlet.Proofs.Evaluation.ResultTypes
import Scriptlet.Proofs.Evaluation.Sessions
import Scriptlet.Proofs.Folding.PureCalls

/-!
# Returns that end a call

Control goes through a body from one piece to the next.  A call that comes to a return
yields what is returned there, so it ends well only if that has the type of the result.
-/

namespace Scriptlet
namespace EvalPoint

variable {σ : Type} {l : Loaded σ}

/-- Within one body control goes from the beginning of one piece of it to that of
another. -/
inductive Inside (l : Loaded σ) : EvalPoint σ -> EvalPoint σ -> Prop where
  | first {fuel s rest m} :
      Inside l ⟨fuel, .stmts (s :: rest), m⟩ ⟨fuel, .stmt s, m⟩
  | next {fuel s rest m m'} :
      Eval.stmt l.program fuel (l.invoke fuel) s m = .done .next m' ->
      Inside l ⟨fuel, .stmts (s :: rest), m⟩ ⟨fuel, .stmts rest, m'⟩
  | block {fuel head body m} :
      Inside l ⟨fuel, .stmt (.block head body), m⟩ ⟨fuel, .stmts body, m⟩
  | branch {fuel pos cond head body m m'} :
      Eval.condition l.program (l.invoke fuel) .ifCondition cond m = .done true m' ->
      Inside l ⟨fuel, .stmt (.ifThen pos cond head body), m⟩ ⟨fuel, .stmts body, m'⟩
  | loop {fuel pos cond head body m} :
      Inside l ⟨fuel, .stmt (.whileDo pos cond head body), m⟩ ⟨fuel, .rounds cond body fuel, m⟩
  | round {fuel cond body limit m m'} :
      Eval.condition l.program (l.invoke fuel) .whileCondition cond m = .done true m' ->
      Inside l ⟨fuel, .rounds cond body (limit + 1), m⟩ ⟨fuel, .stmts body, m'⟩
  | nextRound {fuel cond body limit m m' m''} :
      Eval.condition l.program (l.invoke fuel) .whileCondition cond m = .done true m' ->
      Eval.stmts l.program fuel (l.invoke fuel) body m' = .done .next m'' ->
      Inside l ⟨fuel, .rounds cond body (limit + 1), m⟩ ⟨fuel, .rounds cond body limit, m''⟩

abbrev ComesTo (l : Loaded σ) : EvalPoint σ -> EvalPoint σ -> Prop :=
  Relation.ReflTransGen (Inside l)

theorem Inside.step {a b : EvalPoint σ} (h : a.Inside l b) : a.Step l b := by
  cases h with
  | first => exact .first
  | next hs => exact .next hs
  | block => exact .block
  | branch hcond => exact .branch hcond
  | loop => exact .loop
  | round hcond => exact .round hcond
  | nextRound hcond hbody => exact .nextRound hcond hbody

def flow (l : Loaded σ) (point : EvalPoint σ) : Outcome RuntimeError (Machine σ) Flow :=
  let p := l.program
  let invoke := l.invoke point.fuel
  match point.work with
  | .stmt s => Eval.stmt p point.fuel invoke s point.machine
  | .stmts body => Eval.stmts p point.fuel invoke body point.machine
  | .rounds cond body limit =>
      Eval.loopWithin (Eval.condition p invoke .whileCondition cond)
        (Eval.stmts p point.fuel invoke body) limit point.machine
  | _ => .unfinished

def GoesOn (l : Loaded σ) (point : EvalPoint σ) : Prop :=
  exists m, point.flow l = .done .next m

theorem Inside.flow_eq {a b : EvalPoint σ} (h : a.Inside l b) (hb : ¬b.GoesOn l) :
    a.flow l = b.flow l := by
  cases h with
  | @first fuel s rest m =>
      -- Only behind a statement that goes on are the others executed.
      simp only [GoesOn, flow] at hb
      simp only [flow, Eval.stmts, Run.bind_apply]
      cases hs : Eval.stmt l.program fuel (l.invoke fuel) s m with
      | done flow m' =>
          cases flow with
          | next => exact absurd ⟨m', hs⟩ hb
          | returned v => rfl
      | failed e m' => rfl
      | unfinished => rfl
  | next hs => simp only [flow, Eval.stmts, Run.bind_done hs]
  | block => simp only [flow, Eval.stmt]
  | branch hcond => simp only [flow, Eval.stmt, Run.bind_done hcond, if_true]
  | loop => simp only [flow, Eval.stmt]
  | @round fuel cond body limit m m' hcond =>
      simp only [GoesOn, flow] at hb
      simp only [flow, Eval.loopWithin, Run.bind_done hcond, if_true, Run.bind_apply]
      cases hbody : Eval.stmts l.program fuel (l.invoke fuel) body m' with
      | done flow m'' =>
          cases flow with
          | next => exact absurd ⟨m'', hbody⟩ hb
          | returned v => rfl
      | failed e m'' => rfl
      | unfinished => rfl
  | nextRound hcond hbody =>
      simp only [flow, Eval.loopWithin, Run.bind_done hcond, if_true, Run.bind_done hbody]

theorem ComesTo.flow_eq {a b : EvalPoint σ} (h : ComesTo l a b) (hb : ¬b.GoesOn l) :
    a.flow l = b.flow l := by
  induction h with
  | refl => rfl
  | tail _ hinside ih =>
      have hflow := hinside.flow_eq hb
      refine (ih ?_).trans hflow
      intro hgoes
      rw [GoesOn, hflow] at hgoes
      exact hb hgoes

theorem not_goesOn_ret {fuel : Nat} {pos : Pos} {value : Expr} {m : Machine σ} :
    ¬GoesOn l ⟨fuel, .stmt (.ret pos value), m⟩ := by
  intro h
  rcases h with ⟨m', hflow⟩
  simp only [flow, Eval.stmt, Run.bind_apply] at hflow
  split at hflow <;> cases hflow

end EvalPoint

/-!
# What a session brings to its end
-/

variable {σ : Type} {l : Loaded σ} {host : σ}

theorem Loaded.Reaches.comesTo {a b : EvalPoint σ} (ha : l.Reaches host a)
    (hcomes : EvalPoint.ComesTo l a b) : l.Reaches host b := by
  induction hcomes with
  | refl => exact ha
  | tail _ hinside ih => exact ih.step hinside.step

/-- On a machine that a session comes by, the expression is evaluated to its end. -/
inductive Loaded.Evaluates (l : Loaded σ) (host : σ) (e : Expr) : Prop where
  | intro {point : EvalPoint σ} {fuel : Nat} {v : Value} {m : Machine σ} :
      l.Reaches host point ->
      Eval.expr l.program (l.invoke fuel) e point.machine = .done v m -> Evaluates l host e

/-- On a machine that a session comes by, the statement is executed to its end. -/
inductive Loaded.Executes (l : Loaded σ) (host : σ) (s : Stmt) : Prop where
  | intro {point : EvalPoint σ} {fuel : Nat} {flow : Flow} {m : Machine σ} :
      l.Reaches host point ->
      Eval.stmt l.program fuel (l.invoke fuel) s point.machine = .done flow m -> Executes l host s

/-- In a session control comes to the statement in the body of a call of the function, and
the call ends well. -/
inductive Loaded.EndsBehind (l : Loaded σ) (host : σ) (f : FunId) (s : Stmt) : Prop where
  | intro {fuel inner : Nat} {values : List Value} {pos : Pos} {m m' m'' : Machine σ}
      {block : Block} {result : Option Value} :
      l.Reaches host ⟨fuel + 1, .call f values pos, m⟩ ->
      (l.program.function f).body = some block ->
      EvalPoint.ComesTo l
        ⟨fuel, .stmts block.body, m.push (Eval.callFrame l.program f values)⟩
        ⟨inner, .stmt s, m'⟩ ->
      l.invoke (fuel + 1) f values pos m = .done result m'' -> EndsBehind l host f s

section Types

variable (hwell : l.program.WellFormed)

include hwell

theorem Loaded.Evaluates.type {e : Expr} (h : l.Evaluates host e)
    (hfit : l.program.Fit e.mentions) : exists t, e.type? l.program = some t := by
  rcases h with ⟨hreaches, hdone⟩
  have htyped := (hreaches.safe hwell).typed
  exact ⟨_, ((keeps_expr_type hwell _ e hfit).of_done htyped hdone).1⟩

theorem Loaded.Executes.checks {s : Stmt} (h : l.Executes host s)
    (hfit : l.program.Fit s.mentions) : s.Checks l.program := by
  rcases h with ⟨hreaches, hdone⟩
  have htyped := (hreaches.safe hwell).typed
  exact ((keeps_stmt_checks hwell _ s hfit).of_done htyped hdone).1

theorem Loaded.EndsBehind.type {f : FunId} {pos : Pos} {value : Expr}
    (h : l.EndsBehind host f (.ret pos value)) :
    value.type? l.program = some (l.program.function f).result := by
  rcases h with @⟨fuel, inner, values, _, m, m', m'', block, result, hcall, hblock, hcomes, hdone⟩
  have hsafe := ((hcall.step (.body hblock)).comesTo hcomes).safe hwell
  have hvalue := keeps_expr_type hwell inner value hsafe.fits m' hsafe.typed
  -- The whole body ends as the return does, so the call checks what is returned there.
  have hflow := hcomes.flow_eq EvalPoint.not_goesOn_ret
  simp only [EvalPoint.flow, Eval.stmt, Run.bind_apply] at hflow
  simp only [Loaded.invoke, hblock, Run.bind_apply, Eval.inFrame, hflow] at hdone
  cases houtcome : Eval.expr l.program (l.invoke inner) value m' with
  | done v m₁ =>
      rw [houtcome] at hvalue
      simp only [houtcome, Run.pure_apply, Outcome.mapState, Flow.value?] at hdone
      unfold Eval.checkResult at hdone
      split at hdone
      · rename_i htype
        rw [hvalue.1, ← htype]
        rfl
      · cases hdone
  | failed e m₁ => simp [houtcome, Outcome.mapState] at hdone
  | unfinished => simp [houtcome, Outcome.mapState] at hdone

end Types
end Scriptlet
