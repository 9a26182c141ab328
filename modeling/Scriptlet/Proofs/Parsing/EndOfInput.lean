import Scriptlet.Proofs.Ensures
import Scriptlet.Proofs.Parsing.Statements

/-!
# The end of the input

The parser stops at the first end mark: what stands behind that mark changes neither the
program nor the warnings nor the error, and of an accepted text all tokens before the mark
are taken and no other.  It always halts: every round of a loop takes a token or is the last
one, and no recursion goes deeper than tokens are ahead.
-/

namespace Scriptlet

/-!
# Rounds
-/

/-- What a round does, in whatever way it would go on: it fails, it is the last one, or it takes
a token and goes on. -/
inductive Iteration {σ α : Type} (V : Sight σ) (last : σ -> σ -> Prop)
    (round : StateT σ (Except ParseError) α -> StateT σ (Except ParseError) α) (s : σ) : Prop where
  | fails (e : ParseError) (h : forall again, round again s = .error e)
  | ends (a : α) (s' : σ) (hlast : last s s') (h : forall again, round again s = .ok (a, s'))
  | goesOn (f : α -> α) (s' : σ) (htook : Took 1 (V.tokens s) (V.tokens s'))
      (h : forall again, round again s = (f <$> again) s')

abbrev Closes {σ : Type} (V : Sight σ) (s s' : σ) : Prop :=
  Took 1 (V.tokens s) (V.tokens s')

def FindsEnd (s s' : ParseState) : Prop :=
  s' = s ∧ (frontToken s.tokens).isEnd = true

namespace Parse

theorem itemRound_iteration {α : Type} {item : TokenParse α} {close : TokenParse Token}
    (hitem : forall n, Alike .ofTokens n 1 item item)
    (hclose : forall n, Alike .ofTokens n 1 close close) (tokens : List Token) :
    Iteration .ofTokens (Closes .ofTokens) (itemRound item close) tokens := by
  rcases Alike.outcome hitem tokens with ⟨e, he⟩ | ⟨a, mid, ha, hitemTook⟩
  · exact .fails e fun again => bind_of_error he _
  · rcases Alike.outcome (fun n => alike_accept .comma) mid with ⟨e, he⟩ | ⟨b, mid', hb, hcommaTook⟩
    · exact .fails e fun again => (bind_of_answer ha _).trans (bind_of_error he _)
    · have htook : Took 1 tokens mid' := hitemTook.trans hcommaTook
      cases b with
      | true =>
          exact .goesOn (a :: ·) mid' htook fun again =>
            (bind_of_answer ha _).trans (bind_of_answer hb _)
      | false =>
          rcases Alike.outcome hclose mid' with ⟨e, he⟩ | ⟨_, rest, hrest, hcloseTook⟩
          · exact .fails e fun again => (bind_of_answer ha _).trans
              ((bind_of_answer hb _).trans (bind_of_error he _))
          · exact .ends [a] rest ((htook.trans hcloseTook).weaken (by decide)) fun again =>
              (bind_of_answer ha _).trans ((bind_of_answer hb _).trans (bind_of_answer hrest _))

theorem blockRound_iteration {inner : Parse Stmt}
    (hinner : forall n, Alike .ofState n 1 inner inner) (s : ParseState) :
    Iteration .ofState (Closes .ofState) (blockRound inner) s := by
  by_cases hbrace : (frontToken s.tokens).kind = .closeBrace
  · have hnotEnd : (frontToken s.tokens).isEnd = false := isEnd_eq_false (by rw [hbrace]; decide)
    exact .ends [] { s with tokens := dropFront s.tokens } (took_dropFront hnotEnd) fun again =>
      blockRound_closed inner again hbrace
  · by_cases hend : (frontToken s.tokens).kind = .endOfInput
    · refine .fails ⟨.unexpectedToken (.token .closeBrace) (frontToken s.tokens).kind,
        some (frontToken s.tokens).pos⟩ fun again => ?_
      rw [blockRound_open inner again hbrace, if_pos hend]
      rfl
    · rcases Alike.outcome hinner s with ⟨e, he⟩ | ⟨stmt, mid, hstmt, htook⟩
      · refine .fails e fun again => ?_
        rw [blockRound_open inner again hbrace, if_neg hend]
        exact bind_of_error he _
      · refine .goesOn (stmt :: ·) mid htook fun again => ?_
        rw [blockRound_open inner again hbrace, if_neg hend]
        exact bind_of_answer hstmt _

theorem topLevelRound_eq (again : Parse (List Stmt)) (s : ParseState) :
    topLevelRound again s =
      (if (frontToken s.tokens).isEnd = true then
        return []
      else if startsTopLevel (frontToken s.tokens).kind = true then do
        let stmt ← statement
        return stmt :: (← again)
      else do
        let _ ← advance
        modify fun t => { t with skipped :=
          { pos := (frontToken s.tokens).pos, text := (frontToken s.tokens).text } :: t.skipped }
        again : Parse (List Stmt)) s :=
  rfl

theorem topLevelRound_iteration (s : ParseState) :
    Iteration .ofState FindsEnd topLevelRound s := by
  by_cases hend : (frontToken s.tokens).isEnd = true
  · refine .ends [] s ⟨rfl, hend⟩ fun again => ?_
    rw [topLevelRound_eq, if_pos hend]
    rfl
  · by_cases hstarts : startsTopLevel (frontToken s.tokens).kind = true
    · rcases Alike.outcome (fun n => alike_statement) s with ⟨e, he⟩ | ⟨stmt, mid, hstmt, htook⟩
      · refine .fails e fun again => ?_
        rw [topLevelRound_eq, if_neg hend, if_pos hstarts]
        exact bind_of_error he _
      · refine .goesOn (stmt :: ·) mid htook fun again => ?_
        rw [topLevelRound_eq, if_neg hend, if_pos hstarts]
        exact bind_of_answer hstmt _
    · have htook : Took 1 s.tokens (dropFront s.tokens) :=
        took_dropFront (Bool.not_eq_true _ ▸ hend)
      let warning : ParseWarning :=
        { pos := (frontToken s.tokens).pos, text := (frontToken s.tokens).text }
      refine .goesOn id { s with tokens := dropFront s.tokens, skipped := warning :: s.skipped }
        htook fun again => ?_
      rw [topLevelRound_eq, if_neg hend, if_neg hstarts, id_map]
      rfl

/-!
# Where a program ends
-/

/-- The outermost level ends at the end mark and nowhere else. -/
theorem topLevelWithin_ends (limit : Nat) (s : ParseState) (hs : ahead s.tokens ≤ limit) :
    Yields (topLevelWithin limit) s fun _ s' => (frontToken s'.tokens).isEnd = true := by
  induction limit generalizing s with
  | zero => exact ahead_eq_zero.mp (Nat.le_zero.mp hs)
  | succ limit ih =>
      change Ends _ _ (topLevelRound (topLevelWithin limit) s)
      cases topLevelRound_iteration s with
      | fails e h =>
          rw [h]
          trivial
      | ends a s' hlast h =>
          rw [h, hlast.1]
          exact hlast.2
      | goesOn f s' htook h =>
          have hle : ahead s'.tokens + 1 ≤ ahead s.tokens := htook.ahead_le
          rw [h]
          refine (ensures_map f (topLevelWithin limit) s' fun _ s'' =>
            (frontToken s''.tokens).isEnd = true).mpr ?_
          exact ih s' (by omega)

variable {body : Type} {externs : List (Extern body)}

theorem wholeProgram_ends (tokens : List Token) :
    Yields (wholeProgram externs) (.ofTokens tokens) fun _ s =>
      (frontToken s.tokens).isEnd = true := by
  apply Yields.skip
  intro _ s
  exact topLevelWithin_ends s.tokens.length s (ahead_le_length s.tokens)

/-- Of an accepted text, everything before the end mark is taken and nothing else. -/
theorem wholeProgram_rest {tokens : List Token} {root : List Stmt} {s : ParseState}
    (h : wholeProgram externs (.ofTokens tokens) = .ok (root, s)) :
    s.tokens = tokens.dropWhile fun t => !t.isEnd := by
  have hend := (wholeProgram_ends tokens).of_ok h
  rcases Alike.outcome (fun n => alike_wholeProgram externs) (.ofTokens tokens) with
    ⟨e, he⟩ | ⟨root', s', hs', htook⟩
  · rw [he] at h
    cases h
  · rw [hs'] at h
    cases h
    exact htook.eq_dropWhile hend

end Parse

theorem parse_eq_of_sameToEnd {body : Type} (externs : List (Extern body)) {s t : List Token}
    (h : SameToEnd s t) : parse externs s = parse externs t := by
  have hsame : Sight.ofState.Same (.ofTokens s) (.ofTokens t) := ⟨h, rfl⟩
  have hrun := (Parse.alike_wholeProgram externs).likewise hsame (Nat.lt_succ_self _)
  unfold parse StateT.run
  revert hrun
  generalize Parse.wholeProgram externs (.ofTokens s) = x,
    Parse.wholeProgram externs (.ofTokens t) = y
  intro hrun
  cases hrun with
  | @ok root s' t' hsame' _ _ =>
      have hprogram : t'.program = s'.program := by rw [hsame'.2]
      have hskipped : t'.skipped = s'.skipped := by rw [hsame'.2]
      simp only [hprogram, hskipped]
  | error e => rfl

/-!
# Halting
-/

namespace Parse

/-- The loops that read lists take a token in every round. -/
structure LoopsAdvance : Prop where
  topLevel : forall s, Iteration .ofState FindsEnd topLevelRound s
  blocks : forall s, Iteration .ofState (Closes .ofState) (blockRound statement) s
  parameterLists : forall tokens, Iteration .ofTokens (Closes .ofTokens) parametersRound tokens
  argumentLists : forall names tokens,
    Iteration .ofTokens (Closes .ofTokens) (argumentsRound (expression names)) tokens

theorem loopsAdvance : LoopsAdvance where
  topLevel := topLevelRound_iteration
  blocks := blockRound_iteration fun _ => alike_statement
  parameterLists := itemRound_iteration (fun _ => alike_parameter) fun _ =>
    alike_inParameters (alike_expect (by decide))
  argumentLists := fun names => itemRound_iteration (fun _ => alike_expression names) fun _ =>
    alike_expect (by decide)

def signed (names : Names) : TokenParse Expr :=
  unary (operand names (expression names))

def factor (names : Names) : TokenParse Expr :=
  power (signed names)

def term (names : Names) : TokenParse Expr :=
  chain multiplicativeOp? (factor names)

theorem alike_signed (names : Names) (n : Nat) :
    Alike .ofTokens n 1 (signed names) (signed names) :=
  alike_unary ((alike_operand (alike_expression names) names).mono n.le_succ)

theorem alike_factor (names : Names) (n : Nat) :
    Alike .ofTokens n 1 (factor names) (factor names) :=
  alike_power (alike_signed names n)

theorem alike_term (names : Names) (n : Nat) : Alike .ofTokens n 1 (term names) (term names) :=
  alike_chain (alike_factor names n) rfl

/-- All loops and all recursions of the parser halt. -/
structure ParserHalts : Prop where
  topLevel : Halts .ofState topLevelRound topLevel
  statements : Halts .ofState statementOf statement
  blocks : Halts .ofState (blockRound statement) (blockRest statement)
  parameterLists : Halts .ofTokens parametersRound (do parametersWithin (← tokensLeft))
  expressions : forall names,
    Halts .ofTokens (fun inner => levels (operand names inner)) (expression names)
  argumentLists : forall names, Halts .ofTokens (argumentsRound (expression names))
    (do argumentsWithin (expression names) (← tokensLeft))
  prefixes : forall names,
    Halts .ofTokens (unaryRound (operand names (expression names))) (signed names)
  powers : forall names, Halts .ofTokens (powerRound (signed names)) (factor names)
  products : forall names, HaltsFrom .ofTokens (chainRound multiplicativeOp? (factor names))
    fun left => do chainWithin multiplicativeOp? (factor names) (← tokensLeft) left
  sums : forall names, HaltsFrom .ofTokens (chainRound additiveOp? (term names))
    fun left => do chainWithin additiveOp? (term names) (← tokensLeft) left

theorem parserHalts : ParserHalts where
  topLevel := (topLevel_loop.halts alike_topLevelRound).steady
  statements := (statement_loop.halts alike_statementOfs).steady
  blocks := ((block_loop statement).halts fun _ => alike_blockRound alike_statement).steady
  parameterLists := (parameters_loop.halts alike_parametersRound).steady
  expressions := fun names => ((expression_loop names).halts (alike_nesting names)).steady
  argumentLists := fun names =>
    ((arguments_loop (Alike.needsToken (n := 0) (alike_expression names)).1).halts fun _ =>
      alike_argumentsRound (alike_expression names)).steady
  prefixes := fun names => ((unary_loop _).halts fun _ => alike_unaryRound
    ((alike_operand (alike_expression names) names).mono (Nat.le_succ _))).steady
  powers := fun names => ((power_loop (alike_signed names 1).needsToken.1).halts fun n =>
    alike_powerRound (alike_signed names n)).steady
  products := fun names => (chain_loop rfl _).halts fun n =>
    alike_chainRound (alike_factor names n) rfl
  sums := fun names => (chain_loop rfl _).halts fun n => alike_chainRound (alike_term names n) rfl

end Parse

/-- The parser stops at the first end mark and always halts. -/
structure StopsAtEnd {body : Type} (externs : List (Extern body)) (tokens : List Token) :
    Prop where
  /-- What stands behind an end mark does not matter. -/
  cut : forall before mark behind, tokens = before ++ mark :: behind -> mark.isEnd = true ->
    parse externs (before ++ [mark]) = parse externs tokens
  /-- Where there is no end mark, one is added. -/
  closed : parse externs (tokens ++ [.endOfInput]) = parse externs tokens
  rest : forall root s, Parse.wholeProgram externs (.ofTokens tokens) = .ok (root, s) ->
    s.tokens = tokens.dropWhile fun t => !t.isEnd
  advances : Parse.LoopsAdvance
  halts : Parse.ParserHalts

theorem parser_stops_at_end {body : Type} (externs : List (Extern body)) (tokens : List Token) :
    StopsAtEnd externs tokens where
  cut := by
    intro before mark behind htokens hmark
    rw [htokens]
    exact parse_eq_of_sameToEnd externs (.cut hmark behind before)
  closed := parse_eq_of_sameToEnd externs (.closed tokens)
  rest := fun root s => Parse.wholeProgram_rest
  advances := Parse.loopsAdvance
  halts := Parse.parserHalts

end Scriptlet
