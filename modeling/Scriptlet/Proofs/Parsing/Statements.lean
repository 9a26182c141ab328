import Scriptlet.Parser
import Scriptlet.Proofs.Parsing.Expressions

/-!
# Statements up to the end mark

What a parser does to names and tables depends on the tokens that it has read, and not on
those that are left.  So statements, blocks and the outermost level do the same from states
that agree up to the end mark, as the readers of tokens do.
-/

namespace Scriptlet
namespace Parse

variable {α β : Type} {n count : Nat} {token : Token}

/-!
# Reading tokens
-/

theorem read_of_answer {p : TokenParse α} {s : ParseState} {a : α} {rest : List Token}
    (h : p s.tokens = .ok (a, rest)) :
    (liftM p : Parse α) s = .ok (a, { s with tokens := rest }) := by
  change onTokens p s = _
  rw [onTokens, h]

theorem alikeFrom_read {p p' : TokenParse α} (h : AlikeFrom .ofTokens token n count p p') :
    AlikeFrom .ofState token n count (liftM p : Parse α) (liftM p') := by
  intro s t hsame hn htoken
  have hread := h s.tokens t.tokens hsame.1 hn htoken
  change Likewise .ofState count s t (onTokens p s) (onTokens p' t)
  unfold onTokens
  revert hread
  generalize p s.tokens = x, p' t.tokens = y
  intro hread
  cases hread with
  | @ok a rest rest' hrest hs ht =>
      refine .ok ⟨hrest, ?_⟩ hs ht
      change { t with tokens := rest' } = { s with tokens := rest' }
      rw [hsame.2]
  | error e => exact .error e

theorem alike_read {p p' : TokenParse α} (h : Alike .ofTokens n count p p') :
    Alike .ofState n count (liftM p : Parse α) (liftM p') :=
  fun token => alikeFrom_read (h token)

theorem alikeFrom_withNames {p : Names -> TokenParse α}
    (h : forall names, AlikeFrom .ofTokens token n count (p names) (p names)) :
    AlikeFrom .ofState token n count (withNames p) (withNames p) := by
  intro s t hsame hn htoken
  change Likewise .ofState count s t (onTokens (p s.names) s) (onTokens (p t.names) t)
  have hnames : t.names = s.names := by rw [hsame.2]; rfl
  rw [hnames]
  exact alikeFrom_read (h s.names) s t hsame hn htoken

theorem alike_withNames {p : Names -> TokenParse α}
    (h : forall names, Alike .ofTokens n count (p names) (p names)) :
    Alike .ofState n count (withNames p) (withNames p) :=
  fun token => alikeFrom_withNames fun names => h names token

theorem alike_readCurrent_bind {f f' : Token -> Parse β}
    (h : forall token, AlikeFrom .ofState token n count (f token) (f' token)) :
    Alike .ofState n count ((liftM current : Parse Token) >>= f) ((liftM current) >>= f') := by
  intro token s t hsame hn htoken
  change Likewise .ofState count s t (f (frontToken s.tokens) s) (f' (frontToken t.tokens) t)
  rw [← hsame.1.frontToken_eq]
  exact h _ s t hsame hn rfl

theorem alike_readKind_bind {f f' : TokenKind -> Parse β}
    (h : forall token : Token, AlikeFrom .ofState token n count (f token.kind) (f' token.kind)) :
    Alike .ofState n count ((liftM currentKind : Parse TokenKind) >>= f)
      ((liftM currentKind) >>= f') :=
  alike_readCurrent_bind h

/-!
# Names and tables
-/

theorem alike_get_bind {f f' : ParseState -> Parse β}
    (h : forall s rest, Alike .ofState n count (f s) (f' { s with tokens := rest })) :
    Alike .ofState n count (get >>= f) (get >>= f') := by
  intro token s t hsame hn htoken
  have h := h s t.tokens
  rw [← hsame.2] at h
  exact h token s t hsame hn htoken

theorem alike_modify {g : ParseState -> ParseState}
    (hg : forall s rest, g { s with tokens := rest } = { g s with tokens := rest }) :
    Alike .ofState n 0 (modify g : Parse PUnit) (modify g) := by
  intro token s t hsame hn htoken
  have htokens : forall s, (g s).tokens = s.tokens := fun s => congrArg (·.tokens) (hg s s.tokens)
  change Likewise .ofState 0 s t (.ok (PUnit.unit, g s)) (.ok (PUnit.unit, g t))
  refine .ok ⟨?_, ?_⟩ ?_ ?_
  · rw [htokens, htokens]
    exact hsame.1
  · rw [htokens, ← hg, ← hsame.2]
  · change Took 0 s.tokens (g s).tokens
    rw [htokens]
    exact took_nothing _
  · change Took 0 t.tokens (g t).tokens
    rw [htokens]
    exact took_nothing _

theorem alike_declare (category : Category) (name : String) (type : ValueType)
    (pos : Option Pos) (enter : Program -> Program) :
    Alike .ofState n 0 (declare category name type pos enter)
      (declare category name type pos enter) := by
  intro token s t hsame _ _
  rcases hsame with ⟨hrest, ht⟩
  generalize t.tokens = rest at hrest ht
  subst ht
  unfold declare
  rw [bind_of_answer rfl, bind_of_answer rfl]
  cases s.symbols.declare? category name type with
  | none => exact .error _
  | some declared => exact .ok ⟨hrest, rfl⟩ (took_nothing _) (took_nothing _)

theorem alike_declareConst (name : String) (type : ValueType) (value : Value)
    (pos : Option Pos) : Alike .ofState n 0 (declareConst name type value pos)
      (declareConst name type value pos) :=
  alike_declare _ _ _ _ _

theorem alike_declareVar (name : String) (type : ValueType) (default : Option Value)
    (pos : Option Pos) : Alike .ofState n 0 (declareVar name type default pos)
      (declareVar name type default pos) :=
  alike_get_bind fun _ _ => alike_declare _ _ _ _ _

theorem alike_declareFunction (name : String) (result : ValueType) (body : Option Block)
    (pos : Option Pos) : Alike .ofState n 0 (declareFunction name result body pos)
      (declareFunction name result body pos) :=
  alike_declare _ _ _ _ _

theorem alike_declareParams (params : List Parameter) :
    Alike .ofState n 0 (declareParams params) (declareParams params) := by
  induction params with
  | nil => exact alike_pure []
  | cons p rest ih =>
      apply (alike_declareVar _ _ _ _).skip
      intro var
      exact ih.skip fun params => alike_pure _

theorem alike_inScope {body body' : Nat -> Parse α}
    (h : forall scope, Alike .ofState n count (body scope) (body' scope)) :
    Alike .ofState n count (inScope body) (inScope body') := by
  apply alike_get_bind
  intro s rest
  apply (alike_modify (fun _ _ => rfl)).skip
  intro _
  apply (h _).first
  intro result
  apply (alike_modify (fun _ _ => rfl)).skip
  intro _
  exact alike_pure result

theorem alike_inFunction (id : FunId) {body body' : Nat -> Parse α}
    (h : forall scope, Alike .ofState n count (body scope) (body' scope)) :
    Alike .ofState n count (inFunction id body) (inFunction id body') := by
  apply alike_inScope
  intro scope
  apply (alike_modify (fun _ _ => rfl)).skip
  intro _
  apply (h scope).first
  intro result
  apply (alike_modify (fun _ _ => rfl)).skip
  intro _
  exact alike_pure result

/-!
# Names from outside
-/

theorem alike_injectParams (id : FunId) (params : List (String × ValueType)) :
    Alike .ofState n 0 (injectParams id params) (injectParams id params) := by
  apply (alike_inFunction id fun _ => alike_declareParams _).skip
  intro bound
  exact alike_modify fun _ _ => rfl

theorem alike_inject {body : Type} (entry : Extern body) :
    Alike .ofState n 0 (inject entry) (inject entry) := by
  unfold inject
  cases externFault? entry with
  | some cause => exact alike_fail cause none
  | none =>
      cases entry with
      | const name type value => exact (alike_declareConst _ _ _ _).skip fun _ => alike_pure ()
      | var name type default => exact (alike_declareVar _ _ _ _).skip fun _ => alike_pure ()
      | function name params result body =>
          apply (alike_declareFunction _ _ _ _).skip
          intro id
          cases params with
          | some params => exact alike_injectParams id params
          | none => exact alike_pure ()

theorem alike_injectAll {body : Type} (externs : List (Extern body)) :
    Alike .ofState n 0 (injectAll externs) (injectAll externs) := by
  induction externs with
  | nil => exact alike_pure ()
  | cons entry rest ih => exact (alike_inject entry).skip fun _ => ih

/-!
# Constants, variables and targets of tasks
-/

theorem alike_word {kind : TokenKind} (hkind : kind ≠ .endOfInput) :
    Alike .ofState n 1 (liftM (expect kind) : Parse Token) (liftM (expect kind)) :=
  alike_read (alike_expect hkind)

theorem alike_constDecl : Alike .ofState n 1 constDecl constDecl := by
  apply (alike_word (by decide)).first
  intro word
  apply (alike_word (by decide)).skip
  intro name
  apply (alike_word (by decide)).skip
  intro _
  apply (alike_read alike_expectType).skip
  intro type
  apply (alike_word (by decide)).skip
  intro _
  apply (alike_withNames fun names => alike_constInitializer names name.text type).skip
  intro value
  apply (alike_declareConst _ _ _ _).skip
  intro id
  exact alike_pure _

theorem alike_varDecl : Alike .ofState n 1 varDecl varDecl := by
  apply (alike_word (by decide)).first
  intro word
  apply (alike_word (by decide)).skip
  intro name
  apply (alike_word (by decide)).skip
  intro _
  apply (alike_read alike_expectType).skip
  intro type
  apply (alike_read (alike_accept .equal)).skip
  intro isInitialized
  have hbehind : forall init : Option Expr, Alike .ofState (n - 1) 0
      (do let id ← declareVar name.text type none (some name.pos)
          return Stmt.varDecl word.pos id init)
      (do let id ← declareVar name.text type none (some name.pos)
          return Stmt.varDecl word.pos id init) :=
    fun init => (alike_declareVar _ _ _ _).skip fun id => alike_pure _
  apply Alike.ite
  · intro _
    exact ((alike_withNames alike_expression).map some).skip hbehind
  · intro _
    exact (alike_pure none).skip hbehind

theorem alike_asyncStmt : Alike .ofState n 1 asyncStmt asyncStmt := by
  apply (alike_word (by decide)).first
  intro word
  apply (alike_word (by decide)).skip
  intro name
  apply (alike_read (alike_accept .colon)).skip
  intro isDeclared
  apply Alike.ite
  · intro _
    apply (alike_read alike_expectType).skip
    intro type
    apply (alike_word (by decide)).skip
    intro _
    apply (alike_withNames fun names => alike_asyncCall names name.text type).skip
    intro call
    apply (alike_declareVar _ _ _ _).skip
    intro target
    exact alike_pure _
  · intro _
    apply (alike_word (by decide)).skip
    intro _
    apply (alike_withNames fun names => alike_lookupVar names name.text name.pos).skip
    intro target
    apply alike_get_bind
    intro s rest
    apply (alike_withNames fun names => alike_asyncCall names name.text _).skip
    intro call
    exact alike_pure _

/-!
# Blocks
-/

def blockRound (inner : Parse Stmt) (again : Parse (List Stmt)) : Parse (List Stmt) := do
  if ← accept .closeBrace then
    return []
  else if (← currentKind) = .endOfInput then
    failExpected (.token .closeBrace)
  else
    let stmt ← inner
    return stmt :: (← again)

theorem blockRound_closed (inner : Parse Stmt) (again : Parse (List Stmt)) {s : ParseState}
    (h : (frontToken s.tokens).kind = .closeBrace) :
    blockRound inner again s = .ok ([], { s with tokens := dropFront s.tokens }) :=
  bind_of_answer (read_of_answer (accept_front h)) _

theorem blockRound_open (inner : Parse Stmt) (again : Parse (List Stmt)) {s : ParseState}
    (h : (frontToken s.tokens).kind ≠ .closeBrace) :
    blockRound inner again s =
      (if (frontToken s.tokens).kind = .endOfInput then
        liftM (failExpected (.token .closeBrace) : TokenParse (List Stmt))
      else do
        let stmt ← inner
        return stmt :: (← again) : Parse (List Stmt)) s :=
  bind_of_answer (read_of_answer (accept_other h)) _

theorem block_loop (inner : Parse Stmt) :
    BoundedLoop .ofState (steady (blockRound inner)) fun limit _ =>
      blockRestWithin inner limit where
  done := by
    intro again _ s h
    have h : ahead s.tokens = 0 := h
    have hend := frontToken_kind_of_ahead h
    have hopen : (frontToken s.tokens).kind ≠ .closeBrace := by
      rw [hend]
      decide
    refine Eq.symm ((blockRound_open inner (again ()) hopen).trans ?_)
    rw [if_pos hend]
    rfl
  next := fun _ => rfl

section Nested

variable {inner inner' : Parse Stmt} (hinner : Alike .ofState n 1 inner inner')

include hinner

theorem alike_blockRound :
    AlikeRounds .ofState n 0 (steady (blockRound inner)) (steady (blockRound inner')) := by
  intro m hm again again' hagain _
  apply (alike_read (alike_accept .closeBrace)).skip
  intro isClosed
  apply Alike.ite
  · intro _
    exact alike_pure []
  · intro _
    apply alike_readKind_bind
    intro token
    refine Alike.ite ?_ ?_ token
    · intro _
      exact alike_read (alike_failExpected _)
    · intro _
      refine ((hinner.mono hm).first ?_).weaken (Nat.zero_le 1)
      intro stmt
      exact (hagain ()).skip fun stmts => alike_pure (stmt :: stmts)

theorem alike_blockRest : Alike .ofState n 0 (blockRest inner) (blockRest inner') :=
  (block_loop inner).alike (block_loop inner') (alike_blockRound hinner) () (fun _ => rfl)
    fun _ => rfl

theorem alike_block : Alike .ofState (n + 1) 1 (block inner) (block inner') := by
  apply (alike_word (by decide)).first
  intro brace
  apply alike_inScope
  intro scope
  exact (alike_blockRest hinner).skip fun body => alike_pure _

theorem alike_functionBody (id : FunId) (params : List Parameter) :
    Alike .ofState n 0 (functionBody inner id params) (functionBody inner' id params) := by
  apply alike_inFunction
  intro scope
  apply (alike_declareParams params).skip
  intro bound
  apply (alike_modify (fun _ _ => rfl)).skip
  intro _
  apply (alike_word (by decide)).skip
  intro brace
  exact (alike_blockRest hinner).skip fun body => alike_pure _

theorem alike_funDecl : Alike .ofState (n + 1) 1 (funDecl inner) (funDecl inner') := by
  apply (alike_word (by decide)).first
  intro word
  apply (alike_word (by decide)).skip
  intro name
  apply (alike_read alike_parameters).skip
  intro params
  apply (alike_read (alike_accept .colon)).skip
  intro isTyped
  have hbehind : forall result : ValueType, Alike .ofState n 0
      (do let id ← declareFunction name.text result (some (pendingBody word.pos)) (some name.pos)
          let body ← functionBody inner id params
          setBody id body
          return Stmt.funDecl word.pos id)
      (do let id ← declareFunction name.text result (some (pendingBody word.pos)) (some name.pos)
          let body ← functionBody inner' id params
          setBody id body
          return Stmt.funDecl word.pos id) := by
    intro result
    apply (alike_declareFunction _ _ _ _).skip
    intro id
    apply (alike_functionBody hinner id params).skip
    intro body
    apply (alike_modify (fun _ _ => rfl)).skip
    intro _
    exact alike_pure _
  apply Alike.ite
  · intro _
    exact (alike_read alike_expectType).skip hbehind
  · intro _
    exact (alike_pure ValueType.none).skip hbehind

/-!
# Statements
-/

theorem alikeFrom_guarded (htoken : token.isEnd = false) (build : Token -> Expr -> Block -> Stmt) :
    AlikeFrom .ofState token (n + 1) 1
      (do let word ← advance
          let cond ← withNames expression
          let body ← block inner
          return build word cond body)
      (do let word ← advance
          let cond ← withNames expression
          let body ← block inner'
          return build word cond body) := by
  apply (alikeFrom_read (alikeFrom_advance htoken)).first
  intro word
  apply (alike_withNames alike_expression).skip
  intro cond
  exact ((alike_block hinner).mono n.le_succ).skip fun body => alike_pure _

theorem alike_statementOf : Alike .ofState (n + 1) 1 (statementOf inner) (statementOf inner') := by
  apply alike_readKind_bind
  intro token
  have hnotEnd : forall {kind : TokenKind}, token.kind = kind -> kind ≠ .endOfInput ->
      token.isEnd = false :=
    fun hkind hne => isEnd_eq_false (hkind ▸ hne)
  cases hkind : token.kind
  case constWord => exact alike_constDecl token
  case varWord => exact alike_varDecl token
  case funWord => exact alike_funDecl hinner token
  case openBrace => exact ((alike_block hinner).first fun body => alike_pure _) token
  case ifWord =>
    exact alikeFrom_guarded hinner (hnotEnd hkind (by decide)) fun word cond body =>
      .ifThen word.pos cond body.head body.body
  case whileWord =>
    exact alikeFrom_guarded hinner (hnotEnd hkind (by decide)) fun word cond body =>
      .whileDo word.pos cond body.head body.body
  case returnWord =>
    exact alikeFrom_withNames fun names => alikeFrom_returnStmt names (hnotEnd hkind (by decide))
  case asyncWord => exact alike_asyncStmt token
  case awaitWord => exact alike_withNames alike_awaitStmt token
  case name => exact alike_withNames alike_nameStmt token
  all_goals exact alike_read (alike_failExpected _) token

end Nested

theorem statement_loop :
    BoundedLoop .ofState (steady statementOf) fun depth _ => statementWithin depth where
  done := by
    intro again _ s h
    have h : ahead s.tokens = 0 := h
    refine Eq.symm ((bind_of_answer (read_of_answer rfl) _).trans ?_)
    simp only [frontToken_kind_of_ahead h]
    rfl
  next := fun _ => rfl

theorem alike_statementOfs (bound : Nat) :
    AlikeRounds .ofState bound 1 (steady statementOf) (steady statementOf) :=
  fun _ _ _ _ hinner _ => alike_statementOf (hinner ())

theorem alike_statement : Alike .ofState n 1 statement statement :=
  statement_loop.alike statement_loop (alike_statementOfs n) () (fun _ => rfl) fun _ => rfl

/-!
# Programs
-/

def topLevelRound (again : Parse (List Stmt)) : Parse (List Stmt) := do
  let token ← current
  if token.isEnd then
    return []
  else if startsTopLevel token.kind then
    let stmt ← statement
    return stmt :: (← again)
  else
    let _ ← advance
    modify fun s => { s with skipped := { pos := token.pos, text := token.text } :: s.skipped }
    again

theorem topLevel_loop :
    BoundedLoop .ofState (steady topLevelRound) fun limit _ => topLevelWithin limit where
  done := by
    intro again _ s h
    have h : ahead s.tokens = 0 := h
    change _ = (if (frontToken s.tokens).isEnd = true then return [] else _ : Parse (List Stmt)) s
    rw [if_pos (ahead_eq_zero.mp h)]
    rfl
  next := fun _ => rfl

theorem alike_topLevelRound (bound : Nat) :
    AlikeRounds .ofState bound 0 (steady topLevelRound) (steady topLevelRound) := by
  intro n _ again again' hagain _
  apply alike_readCurrent_bind
  intro token
  by_cases hend : token.isEnd = true
  · rw [if_pos hend, if_pos hend]
    exact alike_pure [] token
  · rw [if_neg hend, if_neg hend]
    by_cases hstarts : startsTopLevel token.kind = true
    · rw [if_pos hstarts, if_pos hstarts]
      refine (alike_statement.first ?_).weaken (Nat.zero_le 1) token
      intro stmt
      exact (hagain ()).skip fun stmts => alike_pure (stmt :: stmts)
    · rw [if_neg hstarts, if_neg hstarts]
      have hnotEnd : token.isEnd = false := Bool.not_eq_true _ ▸ hend
      refine ((alikeFrom_read (alikeFrom_advance hnotEnd)).first ?_).weaken (Nat.zero_le 1)
      intro _
      apply (alike_modify (fun _ _ => rfl)).skip
      intro _
      exact hagain ()

theorem alike_topLevel : Alike .ofState n 0 topLevel topLevel :=
  topLevel_loop.alike topLevel_loop (alike_topLevelRound n) () (fun _ => rfl) fun _ => rfl

theorem alike_wholeProgram {body : Type} (externs : List (Extern body)) :
    Alike .ofState n 0 (wholeProgram externs) (wholeProgram externs) :=
  (alike_injectAll externs).skip fun _ => alike_topLevel

end Parse
end Scriptlet
