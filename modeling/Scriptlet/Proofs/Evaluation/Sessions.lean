import Mathlib
import Scriptlet.Proofs.Binding.Programs
import Scriptlet.Proofs.Evaluation.Preservation

/-!
# Sessions are safe

A session runs the top level of a program and calls its functions in any order, and goes
on behind steps that failed.  At every point of every step the machine is typed, and so is
the machine of every task; no index lies outside of its table, and no slot outside of its
frame or of the globals.
-/

namespace Scriptlet

def Outcome.state? {ε σ α : Type} : Outcome ε σ α -> Option σ
  | .done _ s => some s
  | .failed _ s => some s
  | .unfinished => none

/-!
# Points of an execution
-/

/-- A piece of work of the evaluator. -/
inductive EvalWork where
  | expr (e : Expr)
  | arguments (f : FunId) (pos : Pos) (params : List Param) (args : List Expr)
  | stmt (s : Stmt)
  | stmts (body : List Stmt)
  | rounds (cond : Expr) (body : List Stmt) (limit : Nat)
  | call (f : FunId) (values : List Value) (pos : Pos)

/-- A piece of work with the machine on which it is begun. -/
structure EvalPoint (σ : Type) where
  fuel : Nat
  work : EvalWork
  machine : Machine σ

variable {σ : Type}

def EvalPoint.end? (l : Loaded σ) (point : EvalPoint σ) : Option (Machine σ) :=
  let p := l.program
  let invoke := l.invoke point.fuel
  match point.work with
  | .expr e => (Eval.expr p invoke e point.machine).state?
  | .arguments f pos params args => (Eval.arguments p invoke f pos params args point.machine).state?
  | .stmt s => (Eval.stmt p point.fuel invoke s point.machine).state?
  | .stmts body => (Eval.stmts p point.fuel invoke body point.machine).state?
  | .rounds cond body limit =>
      (Eval.loopWithin (Eval.condition p invoke .whileCondition cond)
        (Eval.stmts p point.fuel invoke body) limit point.machine).state?
  | .call f values pos => (invoke f values pos point.machine).state?

namespace EvalPoint

/-- From one point to one that is reached while the first is worked on.  Each step takes
its machine from the work that comes before. -/
inductive Step (l : Loaded σ) : EvalPoint σ -> EvalPoint σ -> Prop where
  | operand {fuel pos op operand m} :
      Step l ⟨fuel, .expr (.unary pos op operand), m⟩ ⟨fuel, .expr operand, m⟩
  | left {fuel pos op left right m} :
      Step l ⟨fuel, .expr (.binary pos op left right), m⟩ ⟨fuel, .expr left, m⟩
  | right {fuel pos op left right m v m'} :
      Eval.expr l.program (l.invoke fuel) left m = .done v m' ->
      Step l ⟨fuel, .expr (.binary pos op left right), m⟩ ⟨fuel, .expr right, m'⟩
  | arguments {fuel pos f args m} :
      Step l ⟨fuel, .expr (.call pos f args), m⟩
        ⟨fuel, .arguments f pos (l.program.function f).params args, m⟩
  | callee {fuel pos f args m values m'} :
      Eval.arguments l.program (l.invoke fuel) f pos (l.program.function f).params args m =
        .done values m' ->
      Step l ⟨fuel, .expr (.call pos f args), m⟩ ⟨fuel, .call f values pos, m'⟩
  | argument {fuel f pos param params arg args m} :
      Step l ⟨fuel, .arguments f pos (param :: params) (arg :: args), m⟩ ⟨fuel, .expr arg, m⟩
  | nextArgument {fuel f pos param params arg args m v m'} :
      Eval.expr l.program (l.invoke fuel) arg m = .done v m' ->
      Step l ⟨fuel, .arguments f pos (param :: params) (arg :: args), m⟩
        ⟨fuel, .arguments f pos params args, m'⟩
  | first {fuel s rest m} :
      Step l ⟨fuel, .stmts (s :: rest), m⟩ ⟨fuel, .stmt s, m⟩
  | next {fuel s rest m m'} :
      Eval.stmt l.program fuel (l.invoke fuel) s m = .done .next m' ->
      Step l ⟨fuel, .stmts (s :: rest), m⟩ ⟨fuel, .stmts rest, m'⟩
  | initializer {fuel pos id init m} :
      Step l ⟨fuel, .stmt (.varDecl pos id (some init)), m⟩ ⟨fuel, .expr init, m⟩
  | assigned {fuel pos target value m} :
      Step l ⟨fuel, .stmt (.assign pos target value), m⟩ ⟨fuel, .expr value, m⟩
  | returned {fuel pos value m} :
      Step l ⟨fuel, .stmt (.ret pos value), m⟩ ⟨fuel, .expr value, m⟩
  | block {fuel head body m} :
      Step l ⟨fuel, .stmt (.block head body), m⟩ ⟨fuel, .stmts body, m⟩
  | condition {fuel pos cond head body m} :
      Step l ⟨fuel, .stmt (.ifThen pos cond head body), m⟩ ⟨fuel, .expr cond, m⟩
  | branch {fuel pos cond head body m b m'} :
      Eval.condition l.program (l.invoke fuel) .ifCondition cond m = .done b m' ->
      Step l ⟨fuel, .stmt (.ifThen pos cond head body), m⟩ ⟨fuel, .stmts body, m'⟩
  | loop {fuel pos cond head body m} :
      Step l ⟨fuel, .stmt (.whileDo pos cond head body), m⟩ ⟨fuel, .rounds cond body fuel, m⟩
  | roundCondition {fuel cond body limit m} :
      Step l ⟨fuel, .rounds cond body (limit + 1), m⟩ ⟨fuel, .expr cond, m⟩
  | round {fuel cond body limit m b m'} :
      Eval.condition l.program (l.invoke fuel) .whileCondition cond m = .done b m' ->
      Step l ⟨fuel, .rounds cond body (limit + 1), m⟩ ⟨fuel, .stmts body, m'⟩
  | nextRound {fuel cond body limit m b m' flow m''} :
      Eval.condition l.program (l.invoke fuel) .whileCondition cond m = .done b m' ->
      Eval.stmts l.program fuel (l.invoke fuel) body m' = .done flow m'' ->
      Step l ⟨fuel, .rounds cond body (limit + 1), m⟩ ⟨fuel, .rounds cond body limit, m''⟩
  | stmtArguments {fuel pos f args m} :
      Step l ⟨fuel, .stmt (.call pos f args), m⟩
        ⟨fuel, .arguments f pos (l.program.function f).params args, m⟩
  | stmtCallee {fuel pos f args m values m'} :
      Eval.arguments l.program (l.invoke fuel) f pos (l.program.function f).params args m =
        .done values m' ->
      Step l ⟨fuel, .stmt (.call pos f args), m⟩ ⟨fuel, .call f values pos, m'⟩
  | taskArguments {fuel pos target f args m} :
      Step l ⟨fuel, .stmt (.async pos target f args), m⟩
        ⟨fuel, .arguments f pos (l.program.function f).params args, m⟩
  | task {fuel pos target f args m values m'} :
      Eval.arguments l.program (l.invoke fuel) f pos (l.program.function f).params args m =
        .done values m' ->
      Step l ⟨fuel, .stmt (.async pos target f args), m⟩ ⟨fuel, .call f values pos, m'.forTask⟩
  | body {fuel f values pos m block} :
      (l.program.function f).body = some block ->
      Step l ⟨fuel + 1, .call f values pos, m⟩
        ⟨fuel, .stmts block.body, m.push (Eval.callFrame l.program f values)⟩

end EvalPoint

/-!
# Sessions
-/

/-- The machine between the steps of a session, some of which may have failed. -/
inductive Loaded.Between (l : Loaded σ) (host : σ) : Machine σ -> Prop where
  | start : Between l host (Machine.initial l.program host)
  | run {m m' : Machine σ} (fuel : Nat) :
      Between l host m -> (l.run fuel m).state? = some m' -> Between l host m'
  | call {m m' : Machine σ} (fuel : Nat) {f : FunId} (args : List Value) :
      Between l host m -> .function f ∈ l.program.globals ->
      (l.callFunction fuel f args m).state? = some m' -> Between l host m'

/-- The points that the steps of a session come by. -/
inductive Loaded.Reaches (l : Loaded σ) (host : σ) : EvalPoint σ -> Prop where
  | run {m : Machine σ} (fuel : Nat) :
      l.Between host m -> Reaches l host ⟨fuel, .stmts l.program.root, m⟩
  | call {m m' : Machine σ} (fuel : Nat) {f : FunId} {args : List Value} {pos : Pos} :
      l.Between host m -> .function f ∈ l.program.globals ->
      Loaded.checkArguments l.program f pos (l.program.function f).params args m = .done () m' ->
      Reaches l host ⟨fuel, .call f args pos, m'⟩
  | step {a b : EvalPoint σ} : Reaches l host a -> a.Step l b -> Reaches l host b

/-!
# What holds at every point
-/

def EvalWork.Fits (p : Program) : EvalWork -> Prop
  | .expr e => p.Fit e.mentions
  | .arguments f _ _ args => f < p.functions.length ∧ p.Fit (Expr.listMentions args)
  | .stmt s => p.Fit s.mentions
  | .stmts body => p.Fit (Stmt.listMentions body)
  | .rounds cond body _ => p.Fit (cond.mentions ++ Stmt.listMentions body)
  | .call f values _ => f < p.functions.length ∧ Accepted (p.function f).params values

structure EvalPoint.Safe (p : Program) (point : EvalPoint σ) : Prop where
  fits : point.work.Fits p
  typed : point.machine.Typed p

theorem Keeps.of_state {α : Type} {inv : Machine σ -> Prop} {x : Eval σ α} {good : α -> Prop}
    (h : Keeps inv x good) {m m' : Machine σ} (hm : inv m) (hx : (x m).state? = some m') :
    inv m' := by
  have hm' := h m hm
  cases houtcome : x m with
  | done a s =>
      rw [houtcome] at hm' hx
      cases hx
      exact hm'.2
  | failed e s =>
      rw [houtcome] at hm' hx
      cases hx
      exact hm'
  | unfinished =>
      rw [houtcome] at hx
      cases hx

theorem keepsAll_of_state {α : Type} {inv : Machine σ -> Prop} {x : Eval σ α}
    (h : forall m m', inv m -> (x m).state? = some m' -> inv m') : KeepsAll inv x := by
  intro m hm
  have hm' := h m
  cases houtcome : x m with
  | done a s => exact ⟨trivial, hm' s hm (by rw [houtcome]; rfl)⟩
  | failed e s => exact hm' s hm (by rw [houtcome]; rfl)
  | unfinished => trivial

section Safety

variable {l : Loaded σ} (hwell : l.program.WellFormed)

include hwell

theorem EvalPoint.Step.safe {a b : EvalPoint σ} (hstep : a.Step l b) (ha : a.Safe l.program) :
    b.Safe l.program := by
  have hkeeps := invariant_typed hwell
  rcases ha with ⟨hfits, htyped⟩
  cases hstep with
  | operand => exact ⟨hfits, htyped⟩
  | left => exact ⟨Admitted.left hfits, htyped⟩
  | right hleft =>
      have hfit : l.program.Fit _ := hfits
      exact ⟨hfit.right, ((keeps_expr (hkeeps _) _ hfit.left).of_done htyped hleft).2⟩
  | arguments =>
      have hfit : l.program.Fit _ := hfits
      exact ⟨⟨hfit.callee, hfit.tail⟩, htyped⟩
  | callee hargs =>
      have hfit : l.program.Fit _ := hfits
      have hdone := (keeps_arguments (hkeeps _) _ _ _ _ hfit.tail).of_done htyped hargs
      exact ⟨⟨hfit.callee, hdone.1⟩, hdone.2⟩
  | argument => exact ⟨Admitted.left hfits.2, htyped⟩
  | nextArgument harg =>
      have hfit : l.program.Fit _ := hfits.2
      have hdone := (keeps_expr (hkeeps _) _ hfit.left).of_done htyped harg
      exact ⟨⟨hfits.1, hfit.right⟩, hdone.2⟩
  | first => exact ⟨Admitted.left hfits, htyped⟩
  | next hs =>
      have hfit : l.program.Fit _ := hfits
      exact ⟨hfit.right, ((keeps_stmt (hkeeps _) _ _ hfit.left).of_done htyped hs).2⟩
  | initializer => exact ⟨Admitted.tail hfits, htyped⟩
  | assigned => exact ⟨Admitted.tail hfits, htyped⟩
  | returned => exact ⟨hfits, htyped⟩
  | block => exact ⟨hfits, htyped⟩
  | condition => exact ⟨Admitted.left hfits, htyped⟩
  | branch hcond =>
      have hfit : l.program.Fit _ := hfits
      have hdone := (keeps_condition (hkeeps _) _ hfit.left).of_done htyped hcond
      exact ⟨hfit.right, hdone.2⟩
  | loop => exact ⟨hfits, htyped⟩
  | roundCondition => exact ⟨Admitted.left hfits, htyped⟩
  | round hcond =>
      have hfit : l.program.Fit _ := hfits
      have hdone := (keeps_condition (hkeeps _) _ hfit.left).of_done htyped hcond
      exact ⟨hfit.right, hdone.2⟩
  | nextRound hcond hbody =>
      have hfit : l.program.Fit _ := hfits
      have htested := (keeps_condition (hkeeps _) _ hfit.left).of_done htyped hcond
      have hdone := (keeps_stmts (hkeeps _) _ _ hfit.right).of_done htested.2 hbody
      exact ⟨hfits, hdone.2⟩
  | stmtArguments =>
      have hfit : l.program.Fit _ := hfits
      exact ⟨⟨hfit.callee, hfit.tail⟩, htyped⟩
  | stmtCallee hargs =>
      have hfit : l.program.Fit _ := hfits
      have hdone := (keeps_arguments (hkeeps _) _ _ _ _ hfit.tail).of_done htyped hargs
      exact ⟨⟨hfit.callee, hdone.1⟩, hdone.2⟩
  | taskArguments =>
      have hfit : l.program.Fit _ := hfits
      exact ⟨⟨hfit.started, hfit.tail⟩, htyped⟩
  | task hargs =>
      have hfit : l.program.Fit _ := hfits
      have hdone := (keeps_arguments (hkeeps _) _ _ _ _ hfit.tail).of_done htyped hargs
      exact ⟨⟨hfit.started, hdone.1⟩, hdone.2.forTask⟩
  | body hblock =>
      rcases hwell.body hblock with ⟨hexact, hfit⟩
      exact ⟨hfit, htyped.push (typed_callFrame hwell.tables hfits.1 hexact hfits.2)⟩

theorem typed_between {host : σ} {m : Machine σ} (hm : l.Between host m) : m.Typed l.program := by
  induction hm with
  | start => exact Machine.typed_initial hwell.tables host
  | run fuel _ hrun ih => exact (keepsTyped_run hwell fuel).of_state ih hrun
  | call fuel args _ hglobal hcall ih =>
      have hf := hwell.globals _ hglobal
      exact (keepsTyped_callFunction hwell fuel hf args).of_state ih hcall

theorem Loaded.Reaches.safe {host : σ} {point : EvalPoint σ} (h : l.Reaches host point) :
    point.Safe l.program := by
  induction h with
  | run fuel hm => exact ⟨hwell.root.fit, typed_between hwell hm⟩
  | call fuel hm hglobal hcheck =>
      have hdone := (keeps_checkArguments _ _ _ _).of_done (typed_between hwell hm) hcheck
      exact ⟨⟨hwell.globals _ hglobal, hdone.1⟩, hdone.2⟩
  | step _ hstep ih => exact hstep.safe hwell ih

theorem EvalPoint.Safe.typed_end {point : EvalPoint σ} (h : point.Safe l.program) {m : Machine σ}
    (hend : point.end? l = some m) : m.Typed l.program := by
  have hkeeps := invariant_typed hwell
  rcases point with ⟨fuel, work, start⟩
  rcases h with ⟨hfits, htyped⟩
  cases work with
  | expr e => exact (keeps_expr (hkeeps fuel) e hfits).of_state htyped hend
  | arguments f pos params args =>
      exact (keeps_arguments (hkeeps fuel) f pos params args hfits.2).of_state htyped hend
  | stmt s => exact (keeps_stmt (hkeeps fuel) fuel s hfits).of_state htyped hend
  | stmts body => exact (keeps_stmts (hkeeps fuel) fuel body hfits).of_state htyped hend
  | rounds cond body limit =>
      have hfit : l.program.Fit _ := hfits
      have hcond := keeps_condition (hkeeps fuel) .whileCondition hfit.left
      have hbody := keeps_stmts (hkeeps fuel) fuel body hfit.right
      exact ((hkeeps fuel).acts.keeps_loopWithin hcond hbody limit).of_state htyped hend
  | call f values pos =>
      have hcalls := callsKeepTyped_invoke hwell fuel
      exact (hcalls f values pos hfits.1 hfits.2).of_state htyped hend

end Safety

/-!
# Indices
-/

def EvalWork.mentions : EvalWork -> List Mention
  | .expr e => e.mentions
  | .arguments f _ _ args => .call f args.length :: Expr.listMentions args
  | .stmt s => s.mentions
  | .stmts body => Stmt.listMentions body
  | .rounds cond body _ => cond.mentions ++ Stmt.listMentions body
  | .call f values _ => [.call f values.length]

/-- The variable is in the table, and its slot in the globals or in every frame of its
owner. -/
structure Machine.HasSlot (p : Program) (m : Machine σ ρ) (id : VarId) : Prop where
  lt : id < p.vars.length
  globals : (p.variableAt id).owner = none -> (p.variableAt id).slot < m.globals.length
  frames : forall f, (p.variableAt id).owner = some f -> forall frame, frame ∈ m.frames ->
    frame.owner = f -> (p.variableAt id).slot < frame.slots.length

/-- The function is in the table, and its parameters in that of the variables, with slots
in the frames of the function. -/
structure Program.HasParams (p : Program) (f : FunId) : Prop where
  lt : f < p.functions.length
  params : forall param, param ∈ (p.function f).params ->
    param.var < p.vars.length ∧ (p.variableAt param.var).slot < (p.function f).localCount

def Mention.InRange (p : Program) (m : Machine σ ρ) : Mention -> Prop
  | .const id => id < p.constants.length
  | .declareConst id => id < p.constants.length
  | .read id => m.HasSlot p id
  | .declareVar id => m.HasSlot p id
  | .assign id => m.HasSlot p id
  | .await id => m.HasSlot p id
  | .declareFunction f => f < p.functions.length
  | .call f _ => p.HasParams f
  | .start target f _ => m.HasSlot p target ∧ p.HasParams f

section Indices

variable {p : Program} (htables : p.Tables)

include htables

theorem Program.Tables.hasParams {f : FunId} (hf : f < p.functions.length) : p.HasParams f where
  lt := hf
  params := by
    intro param hparam
    rcases List.mem_iff_getElem?.mp hparam with ⟨i, hi⟩
    rcases htables.params f i param hi with ⟨hlt, howner, -, -⟩
    have hslot := htables.slot_lt hlt
    rw [howner] at hslot
    exact ⟨hlt, hslot⟩

theorem Machine.Typed.hasSlot {m : Machine σ ρ} (hm : m.Typed p) {id : VarId}
    (hid : id < p.vars.length) : m.HasSlot p id where
  lt := hid
  globals := by
    intro howner
    have hslot := htables.slot_lt hid
    rw [howner] at hslot
    rw [hm.globals.length]
    exact hslot
  frames := by
    intro f howner frame hframe hof
    have hslot := htables.slot_lt hid
    rw [howner] at hslot
    rw [(hm.frames frame hframe).slots.length, hof]
    exact hslot

theorem Mention.Fits.inRange {m : Machine σ ρ} (hm : m.Typed p) {owners : List FunId}
    {mention : Mention} (h : mention.Fits p owners) : mention.InRange p m := by
  cases mention with
  | const id => exact h
  | declareConst id => exact h
  | read id => exact hm.hasSlot htables h.1
  | declareVar id => exact hm.hasSlot htables h.1
  | assign id => exact hm.hasSlot htables h.1
  | await id => exact hm.hasSlot htables h.1
  | declareFunction f => exact h
  | call f arity => exact htables.hasParams h.1
  | start target f arity => exact ⟨hm.hasSlot htables h.1.1, htables.hasParams h.2.1.1⟩

theorem Program.Fit.inRange {m : Machine σ} (hm : m.Typed p) {ms : List Mention} (h : p.Fit ms) :
    forall mention, mention ∈ ms -> mention.InRange p m := by
  intro mention hmention
  rcases h mention hmention with ⟨owners, hfits⟩
  exact hfits.inRange htables hm

theorem EvalPoint.Safe.inRange {point : EvalPoint σ} (h : point.Safe p) :
    forall mention, mention ∈ point.work.mentions -> mention.InRange p point.machine := by
  rcases point with ⟨fuel, work, m⟩
  rcases h with ⟨hfits, htyped⟩
  cases work with
  | expr e => exact Program.Fit.inRange htables htyped hfits
  | arguments f pos params args =>
      intro mention hmention
      rcases List.mem_cons.mp hmention with hmention | hmention
      · rw [hmention]
        exact htables.hasParams hfits.1
      · exact Program.Fit.inRange htables htyped hfits.2 mention hmention
  | stmt s => exact Program.Fit.inRange htables htyped hfits
  | stmts body => exact Program.Fit.inRange htables htyped hfits
  | rounds cond body limit => exact Program.Fit.inRange htables htyped hfits
  | call f values pos =>
      intro mention hmention
      rw [List.mem_singleton.mp hmention]
      exact htables.hasParams hfits.1

end Indices

section Same

def sameTokens : List Token :=
  [(.funWord, "fun"), (.name, "same"), (.openParen, "("), (.name, "n"), (.colon, ":"),
    (.intType, "int"), (.closeParen, ")"), (.colon, ":"), (.intType, "int"), (.openBrace, "\x7b"),
    (.returnWord, "return"), (.name, "n"), (.closeBrace, "\x7d"), (.varWord, "var"),
    (.name, "x"), (.colon, ":"), (.intType, "int"), (.equal, "="), (.name, "same"),
    (.openParen, "("), (.intLit, "2"), (.closeParen, ")")].map fun word =>
      { pos := .endOfInput, kind := word.1, text := word.2 }

def sameCall : Expr :=
  .call .endOfInput 0 [.literal .endOfInput (.int 2)]

def sameBlock : Block where
  head := { scope := 1, pos := .endOfInput }
  body := [.ret .endOfInput (.var .endOfInput 0)]

def sameProgram : Program :=
  let same : Function :=
    { name := "same", params := [{ var := 0, type := .int }], result := .int, localCount := 1
      body := some sameBlock }
  { root := [.funDecl .endOfInput 0, .varDecl .endOfInput 1 (some sameCall)]
    constants := []
    vars :=
      [{ name := "n", type := .int, owner := some 0, slot := 0, default := none },
        { name := "x", type := .int, owner := none, slot := 0, default := none }]
    functions := [same]
    globalCount := 1
    globals := [.function 0, .var 1] }

theorem parse_sameTokens :
    parse ([] : List (Extern Unit)) sameTokens = .ok { program := sameProgram, warnings := [] } := by
  cbv

def sameLoaded : Loaded Unit :=
  { program := sameProgram, natives := [] }

end Same
end Scriptlet
