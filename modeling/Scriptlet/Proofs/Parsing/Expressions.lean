import Scriptlet.Proofs.Parsing.Loops

/-!
# Readers of tokens up to the end mark

Every reader of tokens does the same from lists that agree up to the end mark.  The bounds
of the loops do not show: a parameter, an argument, an operand and what stands behind an
operator take a token each, so a round never starts again where it started.
-/

namespace Scriptlet
namespace Parse

variable {α β : Type} {n count : Nat} {token : Token}

/-!
# Looking at the front
-/

theorem alike_current_bind {f f' : Token -> TokenParse β}
    (h : forall token, AlikeFrom .ofTokens token n count (f token) (f' token)) :
    Alike .ofTokens n count (current >>= f) (current >>= f') := by
  intro token s t hsame hs htoken
  change Likewise .ofTokens count s t (f (frontToken s) s) (f' (frontToken t) t)
  rw [← SameToEnd.frontToken_eq hsame]
  exact h _ s t hsame hs rfl

theorem alike_currentKind_bind {f f' : TokenKind -> TokenParse β}
    (h : forall token : Token, AlikeFrom .ofTokens token n count (f token.kind) (f' token.kind)) :
    Alike .ofTokens n count (currentKind >>= f) (currentKind >>= f') :=
  alike_current_bind h

theorem alikeFrom_advance (htoken : token.isEnd = false) :
    AlikeFrom .ofTokens token n 1 advance advance := by
  intro s t hsame _ hs
  have hs : frontToken s = token := hs
  have ht : frontToken t = token := (SameToEnd.frontToken_eq hsame).symm.trans hs
  change Likewise .ofTokens 1 s t (.ok (frontToken s, _)) (.ok (frontToken t, _))
  rw [hs, ht]
  exact .ok (SameToEnd.dropFront hsame) (took_dropFront (hs ▸ htoken))
    (took_dropFront (ht ▸ htoken))

theorem alike_advance : Alike .ofTokens n 0 advance advance := by
  intro _ s t hsame _ _
  change Likewise .ofTokens 0 s t (.ok (frontToken s, _)) (.ok (frontToken t, _))
  rw [← SameToEnd.frontToken_eq hsame]
  exact .ok (SameToEnd.dropFront hsame) (took_atMostFront s) (took_atMostFront t)

theorem alike_failExpected (expected : Expectation) :
    Alike .ofTokens n count (failExpected expected : TokenParse α) (failExpected expected) :=
  alike_current_bind fun token => alike_fail _ _ token

theorem alike_accept (kind : TokenKind) : Alike .ofTokens n 0 (accept kind) (accept kind) := by
  apply alike_currentKind_bind
  intro token
  refine Alike.ite ?_ ?_ token
  · intro _
    exact alike_advance.skip fun _ => alike_pure true
  · intro _
    exact alike_pure false

theorem accept_front {kind : TokenKind} {tokens : List Token}
    (h : (frontToken tokens).kind = kind) : accept kind tokens = .ok (true, dropFront tokens) := by
  change (if (frontToken tokens).kind = kind then _ else _ : TokenParse Bool) tokens = _
  rw [if_pos h]
  rfl

theorem accept_other {kind : TokenKind} {tokens : List Token}
    (h : (frontToken tokens).kind ≠ kind) : accept kind tokens = .ok (false, tokens) := by
  change (if (frontToken tokens).kind = kind then _ else return false : TokenParse Bool) tokens = _
  rw [if_neg h]
  rfl

theorem alike_expect {kind : TokenKind} (hkind : kind ≠ .endOfInput) :
    Alike .ofTokens n 1 (expect kind) (expect kind) := by
  apply alike_currentKind_bind
  intro token
  by_cases htoken : token.kind = kind
  · rw [if_pos htoken]
    exact alikeFrom_advance (isEnd_eq_false (htoken ▸ hkind))
  · rw [if_neg htoken]
    exact alike_failExpected _ token

theorem alike_expectType : Alike .ofTokens n 1 expectType expectType := by
  apply alike_currentKind_bind
  intro token
  cases htype : typeOf? token.kind with
  | none => exact alike_failExpected _ token
  | some type =>
      have htoken : token.isEnd = false := by
        apply isEnd_eq_false
        intro hkind
        rw [hkind] at htype
        cases htype
      exact (alikeFrom_advance htoken).first fun _ => alike_pure type

/-!
# Parameter lists
-/

theorem alike_inParameters {p p' : TokenParse α} (h : Alike .ofTokens n count p p') :
    Alike .ofTokens n count (inParameters p) (inParameters p') :=
  fun token s t hsame hn htoken => (h token s t hsame hn htoken).mapError malformed

theorem alike_parameter : Alike .ofTokens n 1 parameter parameter := by
  apply (alike_inParameters (alike_expect (by decide))).first
  intro name
  apply (alike_inParameters (alike_expect (by decide))).skip
  intro colon
  apply (alike_inParameters alike_expectType).skip
  intro type
  exact alike_pure _

def itemRound (item : TokenParse α) (close : TokenParse Token) (again : TokenParse (List α)) :
    TokenParse (List α) := do
  let a ← item
  if ← accept .comma then
    return a :: (← again)
  else
    let _ ← close
    return [a]

theorem alike_itemRound {item item' : TokenParse α} {close : TokenParse Token}
    (hitem : Alike .ofTokens n 1 item item') (hclose : forall n, Alike .ofTokens n 1 close close) :
    AlikeRounds .ofTokens n 1 (steady (itemRound item close)) (steady (itemRound item' close)) := by
  intro m hm again again' hagain _
  apply (hitem.mono hm).first
  intro a
  apply (alike_accept .comma).skip
  intro isComma
  apply Alike.ite
  · intro _
    exact (hagain ()).skip fun others => alike_pure (a :: others)
  · intro _
    exact (hclose _).skip fun _ => alike_pure [a]

abbrev parametersRound : TokenParse (List Parameter) -> TokenParse (List Parameter) :=
  itemRound parameter (inParameters (expect .closeParen))

theorem parameters_loop :
    BoundedLoop .ofTokens (steady parametersRound) fun limit _ => parametersWithin limit where
  done := by
    intro again _ s hs
    exact (alike_parameter (n := 1)).needsToken.1.bind_eq hs
  next := fun _ => rfl

theorem alike_parametersRound (n : Nat) :
    AlikeRounds .ofTokens n 1 (steady parametersRound) (steady parametersRound) :=
  alike_itemRound alike_parameter fun _ => alike_inParameters (alike_expect (by decide))

theorem alike_parameters : Alike .ofTokens n 1 parameters parameters := by
  apply (alike_expect (by decide)).first
  intro opening
  apply (alike_accept .closeParen).skip
  intro isClosed
  apply Alike.ite
  · intro _
    exact alike_pure []
  · intro _
    refine Alike.weaken (m := 0) ?_ (Nat.zero_le 1)
    exact parameters_loop.alike parameters_loop (alike_parametersRound _) () (fun _ => rfl)
      fun _ => rfl

/-!
# Names and literals
-/

theorem alike_literalValue (token : Token) :
    Alike .ofTokens n 0 (literalValue token) (literalValue token) := by
  unfold literalValue
  cases literalValue? token with
  | some value => exact alike_pure value
  | none => exact alike_fail _ _

theorem alike_lookup (names : Names) (name : String) (pos : Pos) :
    Alike .ofTokens n 0 (lookup names name pos) (lookup names name pos) := by
  unfold lookup
  cases names.find name with
  | some binding => exact alike_pure binding
  | none => exact alike_fail _ _

theorem alike_lookupVar (names : Names) (name : String) (pos : Pos) :
    Alike .ofTokens n 0 (lookupVar names name pos) (lookupVar names name pos) := by
  apply (alike_lookup names name pos).skip
  intro binding
  cases binding.category with
  | var => exact alike_pure binding.id
  | const => exact alike_fail _ _
  | function => exact alike_fail _ _

/-!
# Calls
-/

section Nested

variable {inner inner' : TokenParse Expr}

abbrev argumentsRound (inner : TokenParse Expr) :
    TokenParse (List Expr) -> TokenParse (List Expr) :=
  itemRound inner (expect .closeParen)

theorem arguments_loop (hinner : NeedsToken .ofTokens inner) :
    BoundedLoop .ofTokens (steady (argumentsRound inner)) fun limit _ =>
      argumentsWithin inner limit where
  done := by
    intro again _ s hs
    exact hinner.bind_eq hs
  next := fun _ => rfl

variable (hinner : Alike .ofTokens n 1 inner inner')

include hinner

theorem alike_argumentsRound :
    AlikeRounds .ofTokens n 1 (steady (argumentsRound inner)) (steady (argumentsRound inner')) :=
  alike_itemRound hinner fun _ => alike_expect (by decide)

theorem alike_arguments : Alike .ofTokens n 1 (arguments inner) (arguments inner') := by
  cases n with
  | zero => exact alike_nothing _ _
  | succ n =>
      apply (alike_expect (by decide)).first
      intro opening
      apply (alike_accept .closeParen).skip
      intro isClosed
      apply Alike.ite
      · intro _
        exact alike_pure []
      · intro _
        refine Alike.weaken (m := 0) ?_ (Nat.zero_le 1)
        exact (arguments_loop hinner.needsToken.1).alike (arguments_loop hinner.needsToken.2)
          (alike_argumentsRound (hinner.mono n.le_succ)) () (fun _ => rfl) fun _ => rfl

theorem alike_callArguments (names : Names) (callee : Binding) (pos : Pos) :
    Alike .ofTokens n 0 (callArguments names inner callee pos)
      (callArguments names inner' callee pos) := by
  apply Alike.ite
  · intro _
    exact alike_fail_bind _ _
  · intro _
    apply (alike_arguments hinner).skip
    intro args
    apply Alike.ite
    · intro _
      exact alike_fail_bind _ _
    · intro _
      exact alike_pure args

/-!
# Operands
-/

theorem alike_identifierExpr (names : Names) (token : Token) :
    Alike .ofTokens n 0 (identifierExpr names inner token) (identifierExpr names inner' token) := by
  apply (alike_lookup names token.text token.pos).skip
  intro binding
  cases binding.category with
  | const => exact alike_pure _
  | var => exact alike_pure _
  | function =>
      exact (alike_callArguments hinner names binding token.pos).skip fun args => alike_pure _

theorem alike_operand (names : Names) :
    Alike .ofTokens (n + 1) 1 (operand names inner) (operand names inner') := by
  apply alike_current_bind
  intro token
  let literal : TokenParse Expr := do
    let _ ← advance
    return .literal token.pos (← literalValue token)
  have hliteral : token.kind ≠ .endOfInput ->
      AlikeFrom .ofTokens token (n + 1) 1 literal literal := by
    intro hkind
    apply (alikeFrom_advance (isEnd_eq_false hkind)).first
    intro _
    exact (alike_literalValue token).skip fun _ => alike_pure _
  cases hkind : token.kind
  case intLit => exact hliteral (by rw [hkind]; decide)
  case floatLit => exact hliteral (by rw [hkind]; decide)
  case boolLit => exact hliteral (by rw [hkind]; decide)
  case name =>
    apply (alikeFrom_advance (isEnd_eq_false (by rw [hkind]; decide))).first
    intro _
    exact alike_identifierExpr hinner names token
  case openParen =>
    apply (alikeFrom_advance (isEnd_eq_false (by rw [hkind]; decide))).first
    intro _
    apply hinner.skip
    intro e
    exact (alike_expect (by decide)).skip fun _ => alike_pure _
  all_goals exact alike_failExpected _ token

end Nested

theorem operand_atEnd (names : Names) (inner : TokenParse Expr) {tokens : List Token}
    (h : ahead tokens = 0) :
    operand names inner tokens = (failExpected .expression : TokenParse Expr) tokens := by
  refine (bind_of_answer rfl _).trans ?_
  simp only [frontToken_kind_of_ahead h]

theorem needsToken_operand (names : Names) (inner : TokenParse Expr) :
    NeedsToken .ofTokens (operand names inner) :=
  fun _ h => ⟨_, operand_atEnd names inner h⟩

/-!
# Operators
-/

theorem isEnd_of_operator {ω : Type} {op? : TokenKind -> Option ω} (hend : op? .endOfInput = none)
    {token : Token} {op : ω} (h : op? token.kind = some op) : token.isEnd = false := by
  apply isEnd_eq_false
  intro hkind
  rw [hkind, hend] at h
  cases h

def unaryRound (operand again : TokenParse Expr) : TokenParse Expr := do
  match unaryOp? (← currentKind) with
  | some op =>
      let token ← advance
      return .unary token.pos op (← again)
  | none => operand

def powerRound (base again : TokenParse Expr) : TokenParse Expr := do
  let left ← base
  if (← currentKind) = .caret then
    let token ← advance
    return .binary token.pos .pow left (← again)
  else
    return left

def chainRound (op? : TokenKind -> Option BinaryOp) (next : TokenParse Expr)
    (again : Expr -> TokenParse Expr) (left : Expr) : TokenParse Expr := do
  match op? (← currentKind) with
  | some op =>
      let token ← advance
      let right ← next
      again (.binary token.pos op left right)
  | none => return left

theorem unary_loop (operand : TokenParse Expr) :
    BoundedLoop .ofTokens (steady (unaryRound operand)) fun limit _ =>
      unaryWithin operand limit where
  done := by
    intro _ _ tokens h
    have h : ahead tokens = 0 := h
    change operand tokens = (match unaryOp? (frontToken tokens).kind with
      | some op => _
      | none => operand : TokenParse Expr) tokens
    rw [frontToken_kind_of_ahead h]
    rfl
  next := fun _ => rfl

theorem power_loop {base : TokenParse Expr} (hbase : NeedsToken .ofTokens base) :
    BoundedLoop .ofTokens (steady (powerRound base)) fun limit _ => powerWithin base limit where
  done := by
    intro again _ tokens h
    rcases hbase tokens h with ⟨e, he⟩
    exact he.trans (bind_of_error he _).symm
  next := fun _ => rfl

theorem chain_loop {op? : TokenKind -> Option BinaryOp} (hend : op? .endOfInput = none)
    (next : TokenParse Expr) :
    BoundedLoop .ofTokens (chainRound op? next) (chainWithin op? next) where
  done := by
    intro again left tokens h
    have h : ahead tokens = 0 := h
    change _ = (match op? (frontToken tokens).kind with
      | some op => _
      | none => return left : TokenParse Expr) tokens
    rw [frontToken_kind_of_ahead h, hend]
    rfl
  next := fun _ => rfl

section Levels

variable {next next' : TokenParse Expr} (hnext : Alike .ofTokens n 1 next next')

include hnext

theorem alike_unaryRound :
    AlikeRounds .ofTokens n 1 (steady (unaryRound next)) (steady (unaryRound next')) := by
  intro m hm again again' hagain _
  apply alike_currentKind_bind
  intro token
  cases hop : unaryOp? token.kind with
  | none => exact hnext.mono hm token
  | some op =>
      apply (alikeFrom_advance (isEnd_of_operator rfl hop)).first
      intro word
      exact (hagain ()).skip fun operand => alike_pure (Expr.unary word.pos op operand)

theorem alike_unary : Alike .ofTokens n 1 (unary next) (unary next') :=
  (unary_loop next).alike (unary_loop next') (alike_unaryRound hnext) () (fun _ => rfl) fun _ => rfl

theorem alike_powerRound :
    AlikeRounds .ofTokens n 1 (steady (powerRound next)) (steady (powerRound next')) := by
  intro m hm again again' hagain _
  apply (hnext.mono hm).first
  intro left
  apply alike_currentKind_bind
  intro token
  refine Alike.ite ?_ ?_ token
  · intro _
    apply alike_advance.skip
    intro word
    exact (hagain ()).skip fun right => alike_pure (Expr.binary word.pos .pow left right)
  · intro _
    exact alike_pure left

theorem alike_power : Alike .ofTokens n 1 (power next) (power next') := by
  cases n with
  | zero => exact alike_nothing _ _
  | succ n =>
      exact (power_loop hnext.needsToken.1).alike (power_loop hnext.needsToken.2)
        (alike_powerRound hnext) () (fun _ => rfl) fun _ => rfl

variable {op? : TokenKind -> Option BinaryOp} (hend : op? .endOfInput = none)

include hend

theorem alike_chainRound :
    AlikeRounds .ofTokens n 0 (chainRound op? next) (chainRound op? next') := by
  intro m hm again again' hagain left
  apply alike_currentKind_bind
  intro token
  cases hop : op? token.kind with
  | none => exact alike_pure left token
  | some op =>
      refine ((alikeFrom_advance (isEnd_of_operator hend hop)).first ?_).weaken (Nat.zero_le 1)
      intro word
      exact (hnext.mono (Nat.le_of_lt hm)).skip fun right => hagain _

theorem alike_chain : Alike .ofTokens n 1 (chain op? next) (chain op? next') := by
  apply hnext.first
  intro left
  exact (chain_loop hend next).alike (chain_loop hend next')
    (alike_chainRound (hnext.mono (Nat.sub_le n 1)) hend) left (fun _ => rfl) fun _ => rfl

omit hend

theorem alike_comparison : Alike .ofTokens n 1 (comparison next) (comparison next') := by
  apply hnext.first
  intro left
  apply alike_currentKind_bind
  intro token
  cases comparisonOp? token.kind with
  | none => exact alike_pure left token
  | some op =>
      refine Alike.skip alike_advance ?_ token
      intro word
      apply (hnext.mono (Nat.sub_le n 1)).skip
      intro right
      apply alike_current_bind
      intro behind
      refine Alike.ite ?_ ?_ behind
      · intro _
        exact alike_fail_bind _ _
      · intro _
        exact alike_pure _

theorem alike_levels : Alike .ofTokens n 1 (levels next) (levels next') :=
  alike_comparison (alike_chain (alike_chain (alike_power (alike_unary hnext)) rfl) rfl)

end Levels

theorem unary_atEnd (next : TokenParse Expr) {tokens : List Token} (h : ahead tokens = 0) :
    unary next tokens = next tokens :=
  (unary_loop next).atEnd tokens.length () h

theorem levels_atEnd {next : TokenParse Expr} (hnext : NeedsToken .ofTokens next)
    {tokens : List Token} (h : ahead tokens = 0) : levels next tokens = next tokens := by
  have hunary : NeedsToken .ofTokens (unary next) := by
    intro tokens h
    have h : ahead tokens = 0 := h
    rw [unary_atEnd next h]
    exact hnext tokens h
  rcases hnext tokens h with ⟨e, he⟩
  have hpower : power (unary next) tokens = .error e :=
    ((power_loop hunary).atEnd tokens.length () h).trans ((unary_atEnd next h).trans he)
  rw [he]
  exact bind_of_error (bind_of_error (bind_of_error hpower _) _) _

/-!
# Expressions
-/

theorem alike_nesting (names : Names) (bound : Nat) :
    AlikeRounds .ofTokens bound 1 (steady fun inner => levels (operand names inner))
      (steady fun inner => levels (operand names inner)) :=
  fun _ _ _ _ hinner _ => alike_levels (alike_operand (hinner ()) names)

theorem expression_loop (names : Names) :
    BoundedLoop .ofTokens (steady fun inner => levels (operand names inner)) fun depth _ =>
      expressionWithin names depth where
  done := by
    intro again _ tokens h
    exact ((levels_atEnd (needsToken_operand names (again ())) h).trans
      (operand_atEnd names (again ()) h)).symm
  next := fun _ => rfl

theorem alike_expression (names : Names) :
    Alike .ofTokens n 1 (expression names) (expression names) :=
  (expression_loop names).alike (expression_loop names) (alike_nesting names n) ()
    (fun _ => rfl) fun _ => rfl

/-!
# What uses names and declares none
-/

theorem alike_constInitializer (names : Names) (name : String) (type : ValueType) :
    Alike .ofTokens n 0 (constInitializer names name type) (constInitializer names name type) := by
  apply alike_current_bind
  intro token
  -- Wherever the value comes from, the same follows it.
  let behind (value : Value) : TokenParse Value := do
    let _ ← advance
    if continuesExpression (← currentKind) then
      fail (.invalidConstant name type) (some token.pos)
    if value.type ≠ type then
      fail (.typeMismatch name type value.type) (some token.pos)
    return value
  have hbehind : forall value, Alike .ofTokens n 0 (behind value) (behind value) := by
    intro value
    apply alike_advance.skip
    intro _
    apply alike_currentKind_bind
    intro follower
    refine Alike.ite ?_ ?_ follower
    · intro _
      exact alike_fail_bind _ _
    · intro _
      apply Alike.ite
      · intro _
        exact alike_fail_bind _ _
      · intro _
        exact alike_pure value
  cases token.kind
  case intLit => exact (alike_literalValue token).skip hbehind token
  case floatLit => exact (alike_literalValue token).skip hbehind token
  case boolLit => exact (alike_literalValue token).skip hbehind token
  case name =>
    cases constantValue? names type token with
    | some value => exact hbehind value token
    | none => exact alike_fail_bind _ _ token
  all_goals exact alike_fail_bind _ _ token

theorem alike_asyncCall (names : Names) (target : String) (targetType : ValueType) :
    Alike .ofTokens n 1 (asyncCall names target targetType)
      (asyncCall names target targetType) := by
  apply (alike_expect (by decide)).first
  intro callee
  apply (alike_lookup names callee.text callee.pos).skip
  intro binding
  apply Alike.ite
  · intro _
    exact alike_fail_bind _ _
  · intro _
    apply (alike_callArguments (alike_expression names) names binding callee.pos).skip
    intro args
    apply Alike.ite
    · intro _
      exact alike_fail_bind _ _
    · intro _
      exact alike_pure _

theorem alike_nameStmt (names : Names) : Alike .ofTokens n 1 (nameStmt names) (nameStmt names) := by
  apply (alike_expect (by decide)).first
  intro name
  apply (alike_lookup names name.text name.pos).skip
  intro binding
  cases binding.category with
  | var =>
      apply alike_currentKind_bind
      intro token
      refine Alike.ite ?_ ?_ token
      · intro _
        exact alike_fail_bind _ _
      · intro _
        apply (alike_expect (by decide)).skip
        intro _
        exact (alike_expression names).skip fun e => alike_pure (Stmt.assign name.pos binding.id e)
  | function =>
      apply (alike_callArguments (alike_expression names) names binding name.pos).skip
      intro args
      exact alike_pure _
  | const => exact alike_fail _ _

theorem alike_awaitStmt (names : Names) :
    Alike .ofTokens n 1 (awaitStmt names) (awaitStmt names) := by
  apply (alike_expect (by decide)).first
  intro word
  apply (alike_expect (by decide)).skip
  intro name
  exact (alike_lookupVar names name.text name.pos).skip fun id =>
    alike_pure (Stmt.await word.pos id)

theorem alikeFrom_returnStmt (names : Names) (htoken : token.isEnd = false) :
    AlikeFrom .ofTokens token n 1 (returnStmt names) (returnStmt names) := by
  apply (alikeFrom_advance htoken).first
  intro word
  exact (alike_expression names).skip fun e => alike_pure (Stmt.ret word.pos e)

end Parse
end Scriptlet
