import Scriptlet.Proofs.Evaluation.Sessions
import Scriptlet.Proofs.Evaluation.Walk
import Scriptlet.Proofs.Folding.Replacements

/-!
# Calls without effects keep the machine

The body of a function without side effects calls nothing, leaves tasks alone and assigns
only variables of the function.  A call of it works on its own frame and on nothing below,
so however the call ends, the machine is the same as before.  How it ends depends on the
arguments and on the variables of others that the body reads.
-/

namespace Scriptlet

/-!
# Bodies without effects
-/

def Mention.Harmless (p : Program) (f : FunId) : Mention -> Prop
  | .assign id => (p.variableAt id).owner = some f
  | .call _ _ => False
  | .start _ _ _ => False
  | .await _ => False
  | _ => True

section Harmless

variable {p : Program} {f : FunId}

theorem Expr.harmless : forall e : Expr, e.hasCall = false ->
    Admitted (Mention.Harmless p f) e.mentions
  | .literal _ _, _ => admitted_nil
  | .const _ _, _ => admitted_cons.mpr ⟨trivial, admitted_nil⟩
  | .var _ _, _ => admitted_cons.mpr ⟨trivial, admitted_nil⟩
  | .unary _ _ operand, hcall => operand.harmless hcall
  | .binary _ _ left right, hcall => by
      rw [Expr.hasCall, Bool.or_eq_false_iff] at hcall
      exact admitted_append.mpr ⟨left.harmless hcall.1, right.harmless hcall.2⟩
  | .call _ _ _, hcall => nomatch hcall

mutual

theorem Stmt.harmless : forall s : Stmt, p.stmtHasEffects f s = false ->
    Admitted (Mention.Harmless p f) s.mentions
  | .constDecl _ _, _ => admitted_cons.mpr ⟨trivial, admitted_nil⟩
  | .varDecl _ _ none, _ => admitted_cons.mpr ⟨trivial, admitted_nil⟩
  | .varDecl _ _ (some init), heffects => admitted_cons.mpr ⟨trivial, init.harmless heffects⟩
  | .funDecl _ _, _ => admitted_cons.mpr ⟨trivial, admitted_nil⟩
  | .block _ body, heffects => Stmt.list_harmless body heffects
  | .ifThen _ cond _ body, heffects => by
      rw [Program.stmtHasEffects, Bool.or_eq_false_iff] at heffects
      exact admitted_append.mpr ⟨cond.harmless heffects.1, Stmt.list_harmless body heffects.2⟩
  | .whileDo _ cond _ body, heffects => by
      rw [Program.stmtHasEffects, Bool.or_eq_false_iff] at heffects
      exact admitted_append.mpr ⟨cond.harmless heffects.1, Stmt.list_harmless body heffects.2⟩
  | .ret _ value, heffects => value.harmless heffects
  | .assign _ target value, heffects => by
      rw [Program.stmtHasEffects, Bool.or_eq_false_iff] at heffects
      have hown : (p.variableAt target).owner = some f := by
        simpa using heffects.1
      exact admitted_cons.mpr ⟨hown, value.harmless heffects.2⟩
  | .call _ _ _, heffects => nomatch heffects
  | .async _ _ _ _, heffects => nomatch heffects
  | .await _ _, heffects => nomatch heffects

theorem Stmt.list_harmless : forall body : List Stmt, p.stmtsHaveEffects f body = false ->
    Admitted (Mention.Harmless p f) (Stmt.listMentions body)
  | [], _ => admitted_nil
  | s :: rest, heffects => by
      rw [Program.stmtsHaveEffects, Bool.or_eq_false_iff] at heffects
      exact admitted_append.mpr ⟨s.harmless heffects.1, Stmt.list_harmless rest heffects.2⟩

end

end Harmless

def Program.ReadsOutside (p : Program) (f : FunId) (id : VarId) : Prop :=
  .read id ∈ p.mentionsOf f ∧ (p.variableAt id).owner ≠ some f

/-- What may be mentioned in a body that runs alike on two machines. -/
structure Mention.Confined (p : Program) (f : FunId) (alike : VarId -> Prop) (m : Mention) :
    Prop where
  harmless : m.Harmless p f
  declares : forall {id}, m = .declareVar id -> (p.variableAt id).owner = some f
  reads : forall {id}, m = .read id -> (p.variableAt id).owner = some f ∨ alike id

theorem Mention.Confined.owner_of_stored {p : Program} {f : FunId} {alike : VarId -> Prop}
    {m : Mention} (h : m.Confined p f alike) {id : VarId} (hid : m.stored? = some id) :
    (p.variableAt id).owner = some f := by
  cases m with
  | declareVar other =>
      cases hid
      exact h.declares rfl
  | assign other =>
      cases hid
      exact h.harmless
  | await target => exact h.harmless.elim
  | _ => cases hid

theorem Program.confined_body {p : Program} {f : FunId} (hown : DeclaresOwn p f (p.mentionsOf f))
    (hpure : p.hasSideEffects f = false) {alike : VarId -> Prop}
    (halike : forall id, p.ReadsOutside f id -> alike id) :
    Admitted (Mention.Confined p f alike) (p.mentionsOf f) := by
  have hharmless : Admitted (Mention.Harmless p f) (p.mentionsOf f) := by
    cases hbody : (p.function f).body with
    | none =>
        rw [Program.hasSideEffects, hbody] at hpure
        cases hpure
    | some block =>
        rw [Program.hasSideEffects, hbody] at hpure
        rw [Program.mentionsOf_of_body hbody]
        exact Stmt.list_harmless block.body hpure
  intro m hm
  refine ⟨hharmless m hm, ?_, ?_⟩
  · rintro id rfl
    exact hown id hm
  · rintro id rfl
    by_cases howner : (p.variableAt id).owner = some f
    · exact .inl howner
    · exact .inr (halike id ⟨hm, howner⟩)

/-!
# One frame on two machines
-/

def Framed {σ τ : Type} (f : FunId) (m : Machine σ) (m' : Machine τ) (s : Machine σ)
    (t : Machine τ) : Prop :=
  exists frame : Frame, frame.owner = f ∧ frame.tasks = .empty ∧ s = m.push frame ∧
    t = m'.push frame

abbrev AlikeFramed {σ τ α : Type} (f : FunId) (m : Machine σ) (m' : Machine τ) (x : Eval σ α)
    (y : Eval τ α) : Prop :=
  Run.Matches Eq (Framed f m m') False x y

section Framed

variable {σ τ : Type} {p : Program} {f : FunId} {m : Machine σ} {m' : Machine τ}

theorem Machine.read_push_other {frame : Frame} (hframe : frame.owner = f) {id : VarId}
    (hid : (p.variableAt id).owner ≠ some f) : (m.push frame).read p id = m.read p id := by
  cases howner : (p.variableAt id).owner with
  | none => exact m.read_push_global howner
  | some o =>
      have hne : frame.owner ≠ o := by
        rintro rfl
        rw [hframe] at howner
        exact hid howner
      have hbeq : (frame.owner == o) = false := beq_eq_false_iff_ne.mpr hne
      simp only [read, howner, frameOf, push, List.find?_cons, hbeq]

theorem framed_readVar {id : VarId} (pos : Pos)
    (hid : (p.variableAt id).owner = some f ∨ m.read p id = m'.read p id) :
    AlikeFramed f m m' (Eval.readVar p id pos) (Eval.readVar p id pos) := by
  rintro _ _ ⟨frame, hframe, htasks, rfl, rfl⟩
  have hread : (m.push frame).read p id = (m'.push frame).read p id := by
    by_cases howner : (p.variableAt id).owner = some f
    · rw [m.read_push_local hframe howner, m'.read_push_local hframe howner]
    · rw [Machine.read_push_other hframe howner, Machine.read_push_other hframe howner]
      exact hid.resolve_left howner
  unfold Eval.readVar
  rw [hread]
  cases (m'.push frame).read p id with
  | some v => exact .done ⟨frame, hframe, htasks, rfl, rfl⟩
  | none => exact .failed rfl ⟨frame, hframe, htasks, rfl, rfl⟩

theorem framed_writeVar {id : VarId} (hid : (p.variableAt id).owner = some f) (v : Value)
    (pos : Pos) : AlikeFramed f m m' (Eval.writeVar p id v pos) (Eval.writeVar p id v pos) := by
  rintro _ _ ⟨frame, hframe, htasks, rfl, rfl⟩
  unfold Eval.writeVar
  rw [m.store?_push_local hframe hid, m'.store?_push_local hframe hid]
  by_cases htype : (p.variableAt id).type = v.type
  · simp only [if_pos htype]
    exact .done ⟨frame.setSlot (p.variableAt id).slot v, hframe, htasks, rfl, rfl⟩
  · simp only [if_neg htype]
    exact .failed rfl ⟨frame, hframe, htasks, rfl, rfl⟩

theorem framed_actions (invoke : Invoke σ) (invoke' : Invoke τ) :
    (Actions.plain p invoke).Match
      (Mention.Confined p f fun id => m.read p id = m'.read p id) Eq (Framed f m m') False
      (Actions.plain p invoke') where
  raise := fun _ => matches_fail rfl
  reads := fun pos hconfined => framed_readVar pos (hconfined.reads rfl)
  writes := fun v pos hconfined hid => framed_writeVar (hconfined.owner_of_stored hid) v pos
  calls := fun _ _ hconfined => hconfined.harmless.elim
  starts := fun _ _ hconfined => hconfined.harmless.elim
  awaits := fun _ hconfined => hconfined.harmless.elim
  exhausted := fun _ _ _ => .unfinished

theorem framed_inFrame {α : Type} (frame : Frame) (hframe : frame.owner = f)
    (htasks : frame.tasks = .empty) {x : Eval σ α} {y : Eval τ α} (h : AlikeFramed f m m' x y) :
    Run.Matches Eq (fun s t => s = m ∧ t = m') False (Eval.inFrame p frame x)
      (Eval.inFrame p frame y) := by
  apply Run.Matches.around h
  · rintro _ _ ⟨rfl, rfl⟩
    exact ⟨frame, hframe, htasks, rfl, rfl⟩
  · rintro _ _ ⟨last, -, hlast, rfl, rfl⟩
    exact ⟨m.pop_push _ hlast, m'.pop_push _ hlast⟩

end Framed

/-!
# Calls
-/

/-- A call without effects ends alike on two machines that agree on what it reads, and leaves
both of them as they are. -/
theorem matches_effectFree {σ τ : Type} {p : Program} {l : Loaded σ} {l' : Loaded τ}
    (hl : l.program = p) (hl' : l'.program = p) {f : FunId}
    (hown : DeclaresOwn p f (p.mentionsOf f)) (hpure : p.hasSideEffects f = false)
    {m : Machine σ} {m' : Machine τ}
    (halike : forall id, p.ReadsOutside f id -> m.read p id = m'.read p id) (fuel : Nat)
    (values : List Value) (pos : Pos) :
    Outcome.Matches Eq (fun s t => s = m ∧ t = m') False (l.invoke fuel f values pos m)
      (l'.invoke fuel f values pos m') := by
  cases fuel with
  | zero => exact .unfinished
  | succ fuel =>
      cases hbody : (p.function f).body with
      | none =>
          rw [Program.hasSideEffects, hbody] at hpure
          cases hpure
      | some block =>
          have hconfined := Program.confined_body hown hpure halike
          rw [Program.mentionsOf_of_body hbody] at hconfined
          have hstmts := matches_stmts (p := p) (framed_actions (l.invoke fuel) (l'.invoke fuel))
            fuel block.body hconfined
          rw [walk_stmts_plain, walk_stmts_plain] at hstmts
          have hframe := framed_inFrame (p := p) (Eval.callFrame p f values) rfl rfl hstmts
          rw [Loaded.invoke, Loaded.invoke, hl, hl']
          simp only [hbody]
          refine hframe.bind (fun flow => ?_) m m' ⟨rfl, rfl⟩
          unfold Eval.checkResult
          split
          · exact matches_pure _
          · exact matches_fail rfl

/-- A call of a function without side effects leaves the whole machine as it is, whichever way
it ends: with a result, behind its last statement, or with an error.  Its end, the result or
the error, is determined by the arguments and the variables of others that the body reads. -/
theorem effectFree_call {body : Type} {externs : List (Extern body)} {tokens : List Token}
    {parsed : Parsed} (hparse : parse externs tokens = .ok parsed) {f : FunId}
    (hpure : parsed.program.hasSideEffects f = false) {σ τ : Type} {l : Loaded σ} {l' : Loaded τ}
    (hl : l.program = parsed.program) (hl' : l'.program = parsed.program) (fuel : Nat)
    (values : List Value) (pos : Pos) :
    (forall m m' : Machine σ, (l.invoke fuel f values pos m).state? = some m' -> m' = m) ∧
    (forall (m : Machine σ) (m' : Machine τ),
      (forall id, parsed.program.ReadsOutside f id ->
        m.read parsed.program id = m'.read parsed.program id) ->
      (l.invoke fuel f values pos m).mapState (fun _ => ()) =
        (l'.invoke fuel f values pos m').mapState fun _ => ()) := by
  have hown := (wellFormed_of_parse hparse).sound.own f
  constructor
  · intro m m' hend
    have hmatches := matches_effectFree hl hl hown hpure (fun _ _ => rfl) (m := m) fuel values pos
    generalize l.invoke fuel f values pos m = outcome at hmatches hend
    cases hmatches with
    | done hsame =>
        cases hend
        exact hsame.1
    | failed _ hsame =>
        cases hend
        exact hsame.1
    | unfinished => cases hend
    | cut hnever => exact hnever.elim
  · intro m m' halike
    have hmatches := matches_effectFree hl hl' hown hpure halike fuel values pos
    generalize l.invoke fuel f values pos m = first at hmatches
    generalize l'.invoke fuel f values pos m' = second at hmatches
    cases hmatches with
    | done _ => rfl
    | failed he _ => exact congrArg (Outcome.failed · ()) he
    | unfinished => rfl
    | cut hnever => exact hnever.elim

section Stepping

def steppingTokens : List Token :=
  [(.varWord, "var"), (.name, "step"), (.colon, ":"), (.intType, "int"), (.equal, "="),
    (.intLit, "3"), (.funWord, "fun"), (.name, "next"), (.openParen, "("), (.name, "n"),
    (.colon, ":"), (.intType, "int"), (.closeParen, ")"), (.colon, ":"), (.intType, "int"),
    (.openBrace, "\x7b"), (.returnWord, "return"), (.name, "n"), (.plus, "+"), (.name, "step"),
    (.closeBrace, "\x7d")].map fun word =>
      { pos := .endOfInput, kind := word.1, text := word.2 }

def steppingProgram : Program :=
  let next : Function :=
    { name := "next", params := [{ var := 1, type := .int }], result := .int, localCount := 1
      body := some
        { head := { scope := 1, pos := .endOfInput }
          body := [.ret .endOfInput
            (.binary .endOfInput .add (.var .endOfInput 1) (.var .endOfInput 0))] } }
  { root := [.varDecl .endOfInput 0 (some (.literal .endOfInput (.int 3))), .funDecl .endOfInput 0]
    constants := []
    vars :=
      [{ name := "step", type := .int, owner := none, slot := 0, default := none },
        { name := "n", type := .int, owner := some 0, slot := 0, default := none }]
    functions := [next]
    globalCount := 1
    globals := [.var 0, .function 0] }

theorem parse_steppingTokens : parse ([] : List (Extern Unit)) steppingTokens =
    .ok { program := steppingProgram, warnings := [] } := by
  cbv

def steppingMachine : Machine Unit where
  host := ()
  globals := [some (.int 5)]
  frames := [{ owner := 0, slots := [some (.int 1)], tasks := .empty },
    { owner := 0, slots := [none], tasks := .empty }]
  tasks := .empty

theorem effectFree_call_stepping :
    let l : Loaded Unit := { program := steppingProgram, natives := [] }
    let l' : Loaded (List String) := { program := steppingProgram, natives := [] }
    let m' : Machine (List String) := ⟨["line"], [some (.int 5)], [], .empty⟩
    parse ([] : List (Extern Unit)) steppingTokens =
        .ok { program := steppingProgram, warnings := [] } ∧
      steppingProgram.hasSideEffects 0 = false ∧
      l.invoke 1 0 [.int 2] .endOfInput steppingMachine = .done (some (.int 7)) steppingMachine ∧
      (l'.invoke 1 0 [.int 2] .endOfInput m').mapState (fun _ => ()) = .done (some (.int 7)) () := by
  intro l l' m'
  have hl : l.program = steppingProgram := rfl
  have hl' : l'.program = steppingProgram := rfl
  have hcall := effectFree_call parse_steppingTokens (f := 0) rfl hl hl' 1 [.int 2] .endOfInput
  have hsum : exists last, l.invoke 1 0 [.int 2] .endOfInput steppingMachine =
      .done (some (.int 7)) last := ⟨_, rfl⟩
  have hreads : forall id, steppingProgram.ReadsOutside 0 id ->
      steppingMachine.read steppingProgram id = m'.read steppingProgram id := by
    rintro id ⟨hread, howner⟩
    have hids : id = 1 ∨ id = 0 := by
      simpa [steppingProgram, Program.mentionsOf, Program.bodyOf, Program.function,
        Stmt.listMentions, Stmt.mentions, Expr.mentions] using hread
    rcases hids with rfl | rfl
    · exact absurd rfl howner
    · rfl
  rcases hsum with ⟨last, hlast⟩
  have hsame : last = steppingMachine := hcall.1 _ _ (congrArg Outcome.state? hlast)
  rw [hsame] at hlast
  refine ⟨parse_steppingTokens, rfl, hlast, ?_⟩
  rw [← hcall.2 steppingMachine m' hreads, hlast]
  rfl

end Stepping

end Scriptlet
