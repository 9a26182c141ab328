import Mathlib
import Scriptlet.Proofs.Binding.Programs
import Scriptlet.Proofs.Folding.Bodies

/-!
# Replacements

The pass goes from one piece of the program to the next.  Wherever it gets, the tables
agree; and wherever it puts a literal in the place of an expression or drops a call,
the expression has the value of the literal and the call does nothing.
-/

namespace Scriptlet

/-!
# Points of the pass
-/

inductive FoldTask where
  | stmts (body : List Stmt)
  | stmt (s : Stmt)
  | arguments (args : List Expr)
  | expr (e : Expr)

/-- A piece of work of the pass, with the state in which it is begun. -/
structure FoldPoint where
  mode : FoldMode
  /-- How many more bodies may be opened below. -/
  depth : Nat
  task : FoldTask
  state : FoldState

namespace FoldPoint

def start (quota : Nat) (p : Program) : FoldPoint where
  mode := { quota := quota, constantOnly := false, folding := [] }
  depth := p.functions.length
  task := .stmts p.root
  state := { program := p, known := .empty, stats := .none }

def enter (point : FoldPoint) : FunId -> Fold Unit :=
  Fold.functionWithin point.mode.quota point.depth point.mode.folding

/-- From one point to one that is reached while the first is worked on.  Each step takes
its state from the work that comes before; tests that keep the pass from going there are
left out, so there may be more steps than the pass takes. -/
inductive Step : FoldPoint -> FoldPoint -> Prop where
  | first {mode depth st rest s} :
      Step ⟨mode, depth, .stmts (st :: rest), s⟩ ⟨mode, depth, .stmt st, s⟩
  | next {mode depth st rest s r s'} :
      Fold.stmt mode (Fold.functionWithin mode.quota depth mode.folding) st s = .ok (r, s') ->
      Step ⟨mode, depth, .stmts (st :: rest), s⟩ ⟨mode, depth, .stmts rest, s'⟩
  | initializer {mode depth pos id init s} :
      Step ⟨mode, depth, .stmt (.varDecl pos id (some init)), s⟩ ⟨mode, depth, .expr init, s⟩
  | assigned {mode depth pos id value s} :
      Step ⟨mode, depth, .stmt (.assign pos id value), s⟩ ⟨mode, depth, .expr value, s⟩
  | returned {mode depth pos value s} :
      Step ⟨mode, depth, .stmt (.ret pos value), s⟩ ⟨mode, depth, .expr value, s⟩
  | body {mode depth pos f s} :
      Step ⟨mode, depth + 1, .stmt (.funDecl pos f), s⟩
        ⟨Fold.bodyMode mode.quota mode.folding f, depth, .stmts (s.program.bodyOf f),
          Fold.entered s f⟩
  | block {mode depth head body s} :
      Step ⟨mode, depth, .stmt (.block head body), s⟩ ⟨mode, depth, .stmts body, s⟩
  | condition {mode depth pos cond head body s} :
      Step ⟨mode, depth, .stmt (.ifThen pos cond head body), s⟩ ⟨mode, depth, .expr cond, s⟩
  | branch {mode depth pos cond head body s c s'} :
      Fold.slot mode cond s = .ok (c, s') ->
      Step ⟨mode, depth, .stmt (.ifThen pos cond head body), s⟩ ⟨mode, depth, .stmts body, s'⟩
  | loopCondition {mode : FoldMode} {depth pos cond head body s} :
      Step ⟨mode, depth, .stmt (.whileDo pos cond head body), s⟩
        ⟨{ mode with constantOnly := true }, depth, .expr cond, s⟩
  | loopBody {mode : FoldMode} {depth pos cond head body s c s'} :
      Fold.slot { mode with constantOnly := true } cond s = .ok (c, s') ->
      Step ⟨mode, depth, .stmt (.whileDo pos cond head body), s⟩
        ⟨{ mode with constantOnly := true }, depth, .stmts body, s'⟩
  | callArguments {mode depth pos f args s} :
      Step ⟨mode, depth, .stmt (.call pos f args), s⟩ ⟨mode, depth, .arguments args, s⟩
  | asyncArguments {mode depth pos target f args s} :
      Step ⟨mode, depth, .stmt (.async pos target f args), s⟩ ⟨mode, depth, .arguments args, s⟩
  | firstArgument {mode depth arg rest s} :
      Step ⟨mode, depth, .arguments (arg :: rest), s⟩ ⟨mode, depth, .expr arg, s⟩
  | nextArgument {mode depth arg rest s x s'} :
      Fold.slot mode arg s = .ok (x, s') ->
      Step ⟨mode, depth, .arguments (arg :: rest), s⟩ ⟨mode, depth, .arguments rest, s'⟩
  | operand {mode depth pos op operand s} :
      Step ⟨mode, depth, .expr (.unary pos op operand), s⟩ ⟨mode, depth, .expr operand, s⟩
  | left {mode depth pos op left right s} :
      Step ⟨mode, depth, .expr (.binary pos op left right), s⟩ ⟨mode, depth, .expr left, s⟩
  | right {mode depth pos op left right s x s₁ tree s₂} :
      Fold.expr mode left s = .ok (x, s₁) -> Fold.settle x s₁ = .ok (tree, s₂) ->
      Step ⟨mode, depth, .expr (.binary pos op left right), s⟩ ⟨mode, depth, .expr right, s₂⟩
  | nestedArguments {mode depth pos f args s} :
      Step ⟨mode, depth, .expr (.call pos f args), s⟩ ⟨mode, depth, .arguments args, s⟩

abbrev Reaches : FoldPoint -> FoldPoint -> Prop :=
  Relation.ReflTransGen Step

structure Sound (quota : Nat) (point : FoldPoint) : Prop where
  tables : point.state.program.Sound
  quota : point.mode.quota = quota

theorem Step.sound {quota : Nat} {a b : FoldPoint} (hstep : a.Step b) (ha : a.Sound quota) :
    b.Sound quota := by
  have hsame := ha.tables
  cases hstep with
  | first => exact ⟨hsame, ha.quota⟩
  | @next mode depth st rest s r s' hst =>
      have henter := Fold.keeps_functionWithin mode.quota depth mode.folding
      exact ⟨((Fold.keeps_stmt henter mode st hsame).of_ok hst).kept.sound, ha.quota⟩
  | initializer => exact ⟨hsame, ha.quota⟩
  | assigned => exact ⟨hsame, ha.quota⟩
  | returned => exact ⟨hsame, ha.quota⟩
  | body => exact ⟨(Fold.kept_entered hsame _).sound, ha.quota⟩
  | block => exact ⟨hsame, ha.quota⟩
  | condition => exact ⟨hsame, ha.quota⟩
  | branch hcond =>
      exact ⟨(hsame.of_eq ((Fold.yields_slot hsame _).of_ok hcond)).sound, ha.quota⟩
  | loopCondition => exact ⟨hsame, ha.quota⟩
  | loopBody hcond =>
      exact ⟨(hsame.of_eq ((Fold.yields_slot hsame _).of_ok hcond)).sound, ha.quota⟩
  | callArguments => exact ⟨hsame, ha.quota⟩
  | asyncArguments => exact ⟨hsame, ha.quota⟩
  | firstArgument => exact ⟨hsame, ha.quota⟩
  | nextArgument harg =>
      exact ⟨(hsame.of_eq ((Fold.yields_slot hsame _).of_ok harg)).sound, ha.quota⟩
  | operand => exact ⟨hsame, ha.quota⟩
  | left => exact ⟨hsame, ha.quota⟩
  | @right mode depth pos op left right s x s₁ tree s₂ hleft hsettle =>
      have hprogram := ((yields_expr mode left hsame).of_ok hleft).program
      have hcounted := counted_of_settle hsettle
      exact ⟨(hsame.of_eq (hcounted.program.trans hprogram)).sound, ha.quota⟩
  | nestedArguments => exact ⟨hsame, ha.quota⟩

theorem Reaches.sound {quota : Nat} {a b : FoldPoint} (hreaches : a.Reaches b)
    (ha : a.Sound quota) : b.Sound quota := by
  induction hreaches with
  | refl => exact ha
  | tail _ hstep ih => exact hstep.sound ih

end FoldPoint

theorem Program.WellFormed.sound {p : Program} (h : p.WellFormed) : p.Sound where
  tables := h.tables
  own := by
    intro f id hid
    rcases h.bodies f (Program.lt_of_mem_mentionsOf hid) with hnative | ⟨_, outer, _, hfit⟩
    · rw [Program.mentionsOf, Program.bodyOf] at hid
      cases hbody : (p.function f).body with
      | none =>
          rw [hbody] at hid
          cases hid
      | some block => simp [Function.isNative, hbody] at hnative
    · exact (hfit _ hid).2

/-!
# Literals in the place of expressions
-/

namespace Fold

def LiteralIsKnown (tree : Expr) (known : Option Known) : Prop :=
  forall pos v, tree = .literal pos v -> known = some { value := v, elidable := true }

theorem yields_replace_literal {k : Known} {e : Expr} (he : LiteralIsKnown e (some k))
    (s : FoldState) : Yields (replace k e) s fun tree _ => LiteralIsKnown tree (some k) := by
  apply Ensures.ite
  · intro _
    exact he
  · intro hkept
    have helidable : k.elidable = true := by
      cases helidable : k.elidable with
      | true => rfl
      | false => simp [helidable] at hkept
    have hliteral : LiteralIsKnown (.literal e.pos k.value) (some k) := by
      intro pos v htree
      cases htree
      rw [← helidable]
    cases e <;> exact hliteral

theorem yields_settle_literal {x : FoldedExpr} (hx : LiteralIsKnown x.tree x.known)
    (s : FoldState) : Yields (settle x) s fun tree _ => LiteralIsKnown tree x.known := by
  unfold settle
  cases hknown : x.known with
  | none =>
      rw [hknown] at hx
      exact hx
  | some k =>
      rw [hknown] at hx
      exact yields_replace_literal hx s

theorem yields_settleSlot_literal {mode : FoldMode} {x : FoldedExpr}
    (hx : LiteralIsKnown x.tree x.known) (s : FoldState) :
    Yields (settleSlot mode x) s fun y _ => LiteralIsKnown y.tree x.known := by
  unfold settleSlot
  cases hknown : x.known with
  | none =>
      rw [hknown] at hx
      apply Ensures.ite
      · intro _
        exact hx
      · intro _
        exact hx
  | some k =>
      rw [hknown] at hx
      apply (yields_replace_literal hx s).bind
      intro tree s₁ htree
      exact htree

theorem yields_expr_literal (mode : FoldMode) (e : Expr) (s : FoldState) :
    Yields (expr mode e) s fun x _ => LiteralIsKnown x.tree x.known := by
  -- Folding an expression leaves its form, so only a literal becomes one.
  cases e with
  | literal pos value =>
      intro pos v htree
      cases htree
      rfl
  | const pos id =>
      intro pos v htree
      cases htree
  | var pos id =>
      intro pos v htree
      cases htree
  | unary pos op operand =>
      apply Yields.skip
      intro x s₁
      apply Yields.skip
      intro tree s₂
      cases x.known with
      | none =>
          intro pos v htree
          cases htree
      | some k =>
          apply Yields.skip
          intro known s₃ pos v htree
          cases htree
  | binary pos op left right =>
      apply Yields.skip
      intro l s₁
      apply Yields.skip
      intro lTree s₂
      cases l.known with
      | none =>
          intro pos v htree
          cases htree
      | some lk =>
          apply Yields.skip
          intro r s₃
          apply Yields.skip
          intro rTree s₄
          cases r.known with
          | none =>
              intro pos v htree
              cases htree
          | some rk =>
              apply Yields.skip
              intro known s₅ pos v htree
              cases htree
  | call pos f args =>
      apply Yields.skip
      intro xs s₁
      apply Yields.skip
      intro call s₂ pos v htree
      cases htree

/-- The pass puts the literal of the value where the expression was: as an operand, or as
the whole of a slot. -/
inductive Replaces (mode : FoldMode) (s : FoldState) (e : Expr) (v : Value) : Prop where
  | operand {x : FoldedExpr} {pos : Pos} {s₁ s₂ : FoldState} :
      expr mode e s = .ok (x, s₁) -> settle x s₁ = .ok (.literal pos v, s₂) ->
      Replaces mode s e v
  | slot {known : Option Known} {pos : Pos} {s' : FoldState} :
      slot mode e s = .ok ({ tree := .literal pos v, known := known }, s') ->
      Replaces mode s e v

def Removes (mode : FoldMode) (enter : FunId -> Fold Unit) (s : FoldState) (st : Stmt) : Prop :=
  exists s', stmt mode enter st s = .ok (.remove, s')

section Sound

variable {mode : FoldMode} {s : FoldState} (hs : s.program.Sound)

include hs

theorem Replaces.hasValue {e : Expr} {v : Value} (h : Replaces mode s e v) :
    e.HasValue s.program (mode.visible s.known) mode.quota v := by
  have hfolded := (yields_expr mode e hs).and (yields_expr_literal mode e s)
  cases h with
  | @operand x pos s₁ s₂ hx hsettle =>
      have hx := hfolded.of_ok hx
      have hknown := (yields_settle_literal hx.2 s₁).of_ok hsettle pos v rfl
      exact (hx.1.sound _ hknown rfl).2
  | @slot known pos s' hslot =>
      have hvalue : Yields (Fold.slot mode e) s fun y _ => forall pos v, y.tree = .literal pos v ->
          e.HasValue s.program (mode.visible s.known) mode.quota v := by
        apply hfolded.bind
        intro x s₁ hx
        apply (yields_settleSlot_literal hx.2 s₁).mono
        intro y s₂ hy pos v htree
        exact (hx.1.sound _ (hy pos v htree) rfl).2
      exact hvalue.of_ok hslot pos v rfl

theorem yields_callStmt (pos : Pos) (f : FunId) (args : List Expr) :
    Yields (callStmt mode pos f args) s fun r _ => r = .remove ->
      (Stmt.call pos f args).DoesNothing s.program (mode.visible s.known) mode.quota := by
  apply (yields_arguments mode args hs).bind
  intro xs s₁ hxs
  apply (yields_callWith (hxs.program ▸ hs) pos f xs).bind
  intro call s₂ hcall
  cases hcalled : call with
  | none =>
      apply Ensures.ite
      · intro _ hremove
        cases hremove
      · intro _ hremove
        cases hremove
  | some c =>
      apply Ensures.ite
      · intro helidable _
        rcases hcall.sound c hcalled helidable with
          ⟨hknown, hargs, hnative, values, hvalues, haccepted, hresult⟩
        rcases hxs.sound values hvalues hargs with ⟨hknown₁, hvalued⟩
        rw [hxs.program] at hnative haccepted hresult
        rw [hknown₁] at hresult
        exact doesNothing_call pos hnative hvalued haccepted hresult
      · intro _ hremove
        cases hremove

theorem Removes.doesNothing {enter : FunId -> Fold Unit} {pos : Pos} {f : FunId}
    {args : List Expr} (h : Removes mode enter s (.call pos f args)) :
    (Stmt.call pos f args).DoesNothing s.program (mode.visible s.known) mode.quota := by
  rcases h with ⟨s', hremove⟩
  exact (yields_callStmt hs pos f args).of_ok hremove rfl

end Sound
end Fold

/-!
# The pass over a program
-/

/-- Wherever the pass gets in an accepted program, what it puts a literal in the place of
has the value of the literal, and a call statement that it drops does nothing: in every
state that has the known values, over the functions as they are at that moment. -/
theorem replacement_sound {body : Type} {externs : List (Extern body)} {tokens : List Token}
    {parsed : Parsed} (hparse : parse externs tokens = .ok parsed) {quota : Nat}
    {point : FoldPoint} (hreaches : (FoldPoint.start quota parsed.program).Reaches point) :
    (forall e v, point.task = .expr e -> Fold.Replaces point.mode point.state e v ->
      e.HasValue point.state.program (point.mode.visible point.state.known) quota v) ∧
    (forall pos f args, point.task = .stmt (.call pos f args) ->
      Fold.Removes point.mode point.enter point.state (.call pos f args) ->
      (Stmt.call pos f args).DoesNothing point.state.program
        (point.mode.visible point.state.known) quota) := by
  have hstart : (FoldPoint.start quota parsed.program).Sound quota :=
    ⟨(wellFormed_of_parse hparse).sound, rfl⟩
  have hsound := FoldPoint.Reaches.sound hreaches hstart
  rw [← hsound.quota]
  constructor
  · intro e v _ hreplaces
    exact hreplaces.hasValue hsound.tables
  · intro pos f args _ hremoves
    exact hremoves.doesNothing hsound.tables

section Two

def twoTokens : List Token :=
  [(.funWord, "fun"), (.name, "two"), (.openParen, "("), (.closeParen, ")"), (.colon, ":"),
    (.intType, "int"), (.openBrace, "\x7b"), (.returnWord, "return"), (.intLit, "2"),
    (.closeBrace, "\x7d"), (.name, "two"), (.openParen, "("), (.closeParen, ")"),
    (.varWord, "var"), (.name, "x"), (.colon, ":"), (.intType, "int"), (.equal, "="),
    (.name, "two"), (.openParen, "("), (.closeParen, ")")].map fun word =>
      { pos := .endOfInput, kind := word.1, text := word.2 }

def twoCall : Expr :=
  .call .endOfInput 0 []

def twoProgram : Program :=
  let head : BlockHead := { scope := 1, pos := .endOfInput }
  let two : Function :=
    { name := "two", params := [], result := .int, localCount := 0
      body := some { head := head, body := [.ret .endOfInput (.literal .endOfInput (.int 2))] } }
  { root := [.funDecl .endOfInput 0, .call .endOfInput 0 [], .varDecl .endOfInput 0 (some twoCall)]
    constants := []
    vars := [{ name := "x", type := .int, owner := none, slot := 0, default := none }]
    functions := [two]
    globalCount := 1
    globals := [.function 0, .var 0] }

theorem parse_twoTokens :
    parse ([] : List (Extern Unit)) twoTokens = .ok { program := twoProgram, warnings := [] } := by
  cbv

def twoState (elidedCalls : Nat) : FoldState :=
  { program := twoProgram, known := .empty
    stats := { foldedExprs := 0, elidedCalls := elidedCalls, removedBlocks := 0 } }

def twoMode : FoldMode :=
  { quota := 8, constantOnly := false, folding := [] }

theorem reaches_twoCallStmt : (FoldPoint.start 8 twoProgram).Reaches
    ⟨twoMode, 1, .stmts [.call .endOfInput 0 [], .varDecl .endOfInput 0 (some twoCall)],
      twoState 0⟩ := by
  have hdeclared : Fold.stmt twoMode (Fold.functionWithin 8 1 []) (.funDecl .endOfInput 0)
      (twoState 0) = .ok (.keep (.funDecl .endOfInput 0), twoState 0) := by
    cbv
  exact .single (.next hdeclared)

theorem removes_twoCallStmt : Fold.stmt twoMode (Fold.functionWithin 8 1 [])
    (.call .endOfInput 0 []) (twoState 0) = .ok (.remove, twoState 1) := by
  cbv

theorem replaces_twoCall : Fold.Replaces twoMode (twoState 1) twoCall (.int 2) := by
  have hslot : Fold.slot twoMode twoCall (twoState 1) =
      .ok ({ tree := .literal .endOfInput (.int 2)
             known := some { value := .int 2, elidable := true } }, twoState 2) := by
    cbv
  exact .slot hslot

theorem replacement_sound_two :
    parse ([] : List (Extern Unit)) twoTokens = .ok { program := twoProgram, warnings := [] } ∧
    (exists point, (FoldPoint.start 8 twoProgram).Reaches point ∧
      Fold.Replaces point.mode point.state twoCall (.int 2) ∧
      twoCall.HasValue point.state.program (point.mode.visible point.state.known) 8 (.int 2)) ∧
    (exists point, (FoldPoint.start 8 twoProgram).Reaches point ∧
      Fold.Removes point.mode point.enter point.state (.call .endOfInput 0 []) ∧
      (Stmt.call .endOfInput 0 []).DoesNothing point.state.program
        (point.mode.visible point.state.known) 8) := by
  have hstmt := reaches_twoCallStmt.tail .first
  have hexpr := ((reaches_twoCallStmt.tail (.next removes_twoCallStmt)).tail .first).tail
    .initializer
  refine ⟨parse_twoTokens, ⟨_, hexpr, replaces_twoCall, ?_⟩,
    ⟨_, hstmt, ⟨_, removes_twoCallStmt⟩, ?_⟩⟩
  · exact (replacement_sound parse_twoTokens hexpr).1 twoCall (.int 2) rfl replaces_twoCall
  · exact (replacement_sound parse_twoTokens hstmt).2 .endOfInput 0 [] rfl
      ⟨_, removes_twoCallStmt⟩

end Two
end Scriptlet
