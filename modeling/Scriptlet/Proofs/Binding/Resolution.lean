import Scriptlet.Proofs.Binding.Agreement
import Scriptlet.Proofs.Binding.Uses
import Scriptlet.Proofs.Ensures

/-!
# What the names of a program stand for

Every use of a name asks the same question: which complete declaration of the name
is the innermost around the place of the use.  Where there is one, the tree names
its table entry; where there is none, reading ends at the use.
-/

namespace Scriptlet

def Expr.Uses (pos : Pos) (b : Binding) (e : Expr) : Prop :=
  match b.category with
  | .const => e = .const pos b.id
  | .var => e = .var pos b.id
  | .function => exists args, e = .call pos b.id args

def Stmt.Uses (pos : Pos) (b : Binding) (s : Stmt) : Prop :=
  match b.category with
  | .const => False
  | .var => exists value, s = .assign pos b.id value
  | .function => exists args, s = .call pos b.id args

/-- A reader of a use ends at the use if the name stands for nothing, and answers with
a use of what the name stands for otherwise. -/
def Resolved {α : Type} (find : String -> Option Binding) (name : Token) (fault : ParseCause)
    (reader : TokenParse α) (tokens : List Token) (uses : Binding -> α -> Prop) : Prop :=
  match find name.text with
  | none => reader tokens = .error { cause := fault, pos := some name.pos }
  | some b => Yields reader tokens fun a _ => uses b a

section Uses

variable {α : Type} {find : String -> Option Binding} {name : Token} {fault : ParseCause}
  {tokens : List Token} {uses : Binding -> α -> Prop}

theorem Resolved.bind {β : Type} {used : Binding -> β -> Prop} {x : TokenParse β}
    {f : β -> TokenParse α} (h : Resolved find name fault x tokens used)
    (hnext : forall b a rest, used b a -> Yields (f a) rest fun c _ => uses b c) :
    Resolved find name fault (x >>= f) tokens uses := by
  unfold Resolved at h ⊢
  cases hfind : find name.text with
  | none =>
      rw [hfind] at h
      show (x tokens >>= fun answer => f answer.1 answer.2) = _
      rw [h]
      rfl
  | some b =>
      rw [hfind] at h
      exact Ensures.bind h (hnext b)

theorem Resolved.behind {β : Type} {x : TokenParse β} {f : β -> TokenParse α} {a : β}
    {rest : List Token} (hx : x tokens = .ok (a, rest))
    (h : Resolved find name fault (f a) rest uses) :
    Resolved find name fault (x >>= f) tokens uses := by
  have hbind : (x >>= f) tokens = f a rest := by
    show (x tokens >>= fun answer => f answer.1 answer.2) = _
    rw [hx]
    rfl
  unfold Resolved Yields Ensures at h ⊢
  rw [hbind]
  exact h

variable (names : Names)

theorem resolved_lookup (name : Token) (tokens : List Token) :
    Resolved names.find name (.undefined name.text) (Parse.lookup names name.text name.pos) tokens
      (fun b found => found = b) := by
  unfold Resolved Parse.lookup
  cases names.find name.text with
  | none => rfl
  | some b => exact (ensures_pure b tokens _).mpr rfl

theorem resolved_operand (inner : TokenParse Expr) (tokens : List Token)
    (hname : (frontToken tokens).kind = .name) :
    Resolved names.find (frontToken tokens) (.undefined (frontToken tokens).text)
      (Parse.operand names inner) tokens (fun b e => e.Uses (frontToken tokens).pos b) := by
  have hoperand : Parse.operand names inner tokens =
      Parse.identifierExpr names inner (frontToken tokens) (dropFront tokens) := by
    rw [Parse.operand, Parse.current_bind, hname]
    rfl
  have hlookup : Resolved names.find (frontToken tokens) (.undefined (frontToken tokens).text)
      (Parse.identifierExpr names inner (frontToken tokens)) (dropFront tokens)
      (fun b e => e.Uses (frontToken tokens).pos b) := by
    apply (resolved_lookup names _ _).bind
    rintro _ b rest rfl
    cases hcategory : b.category <;> simp [Expr.Uses, hcategory]
  unfold Resolved Yields Ensures at hlookup ⊢
  rwa [hoperand]

theorem resolved_lookupVar (name : Token) (tokens : List Token) :
    Resolved names.find name (.undefined name.text)
      (Parse.lookupVar names name.text name.pos) tokens
      (fun b id => b.category = .var ∧ id = b.id) := by
  apply (resolved_lookup names name tokens).bind
  rintro _ b rest rfl
  cases hcategory : b.category <;> simp [Parse.fail]

theorem resolved_awaitStmt (word name : Token) (rest : List Token)
    (hword : word.kind = .awaitWord) (hname : name.kind = .name) :
    Resolved names.find name (.undefined name.text) (Parse.awaitStmt names) (word :: name :: rest)
      (fun b s => b.category = .var ∧ s = .await word.pos b.id) := by
  apply Resolved.behind (Parse.expect_eq_ok (by decide) |>.mpr ⟨rfl, hword⟩)
  apply Resolved.behind (Parse.expect_eq_ok (by decide) |>.mpr ⟨rfl, hname⟩)
  apply (resolved_lookupVar names name rest).bind
  rintro b _ rest' ⟨hcategory, rfl⟩
  exact ⟨hcategory, rfl⟩

theorem resolved_nameStmt (tokens : List Token) (hname : (frontToken tokens).kind = .name) :
    Resolved names.find (frontToken tokens) (.undefined (frontToken tokens).text)
      (Parse.nameStmt names) tokens (fun b s => s.Uses (frontToken tokens).pos b) := by
  apply Resolved.behind (expect_front hname)
  apply (resolved_lookup names _ _).bind
  rintro _ b rest rfl
  cases hcategory : b.category <;> simp [Stmt.Uses, hcategory, Parse.fail]

theorem resolved_asyncCall (target : String) (type : ValueType) (tokens : List Token)
    (hname : (frontToken tokens).kind = .name) :
    Resolved names.find (frontToken tokens) (.undefined (frontToken tokens).text)
      (Parse.asyncCall names target type) tokens
      (fun b call => b.category = .function ∧ call.1 = b.id) := by
  apply Resolved.behind (expect_front hname)
  apply (resolved_lookup names _ _).bind
  rintro _ b rest rfl
  by_cases hcategory : b.category = .function <;> simp [hcategory, Parse.fail]

theorem resolved_constInitializer (name : String) (type : ValueType) (tokens : List Token)
    (hname : (frontToken tokens).kind = .name) :
    Resolved names.find (frontToken tokens) (.invalidConstant name type)
      (Parse.constInitializer names name type) tokens
      (fun b value => b.category = .const ∧ value = (names.program.constant b.id).value) := by
  have hcurrent : Parse.current tokens = .ok (frontToken tokens, tokens) :=
    rfl
  apply Resolved.behind hcurrent
  simp only [hname]
  unfold Resolved Parse.constantValue?
  cases hfind : names.find (frontToken tokens).text with
  | none => rfl
  | some b =>
      by_cases hconst : b.category = .const ∧ b.type = type
      · simp [hconst, Parse.fail]
      · simp [hconst, Parse.fail]

end Uses

/-!
# Names at the front of an expression
-/

def Expr.BeginsWith (b : Binding) (e : Expr) : Prop :=
  exists m, e.mentions.head? = some m ∧ m.IsOf b

theorem Expr.Uses.beginsWith {pos : Pos} {b : Binding} {e : Expr} (h : e.Uses pos b) :
    e.BeginsWith b := by
  unfold Expr.Uses at h
  cases hcategory : b.category with
  | const =>
      rw [hcategory] at h
      exact ⟨.const b.id, by rw [h]; rfl, hcategory, rfl⟩
  | var =>
      rw [hcategory] at h
      exact ⟨.read b.id, by rw [h]; rfl, hcategory, rfl⟩
  | function =>
      rw [hcategory] at h
      obtain ⟨args, h⟩ := h
      exact ⟨.call b.id args.length, by rw [h]; rfl, hcategory, rfl⟩

theorem beginsWith_binary {b : Binding} {left : Expr} (pos : Pos) (op : BinaryOp) (right : Expr)
    (h : left.BeginsWith b) : (Expr.binary pos op left right).BeginsWith b := by
  obtain ⟨m, hm, huse⟩ := h
  refine ⟨m, ?_, huse⟩
  rw [Expr.mentions, List.head?_append, hm]
  rfl

section Fronts

open Parse

variable (names : Names) {tokens : List Token} (hname : (frontToken tokens).kind = .name)

def Fronts (next : TokenParse Expr) (tokens : List Token) : Prop :=
  Resolved names.find (frontToken tokens) (.undefined (frontToken tokens).text) next tokens
    fun b e => e.BeginsWith b

variable {names} {next : TokenParse Expr} (hnext : Fronts names next tokens)

include hnext

theorem fronts_chain (op? : TokenKind -> Option BinaryOp) : Fronts names (chain op? next) tokens := by
  apply Resolved.bind hnext
  intro b left rest hleft
  apply Yields.skip
  intro limit rest
  induction limit generalizing left rest with
  | zero => exact hleft
  | succ limit ih =>
      apply Yields.skip
      intro kind rest
      cases op? kind with
      | none => exact hleft
      | some op =>
          apply Yields.skip
          intro token rest
          apply Yields.skip
          intro right rest
          exact ih _ (beginsWith_binary token.pos op right hleft) rest

theorem fronts_comparison : Fronts names (comparison next) tokens := by
  apply Resolved.bind hnext
  intro b left rest hleft
  apply Yields.skip
  intro kind rest
  cases comparisonOp? kind with
  | none => exact hleft
  | some op =>
      apply Yields.skip
      intro token rest
      apply Yields.skip
      intro right rest
      apply Yields.skip
      intro behind rest
      apply Ensures.ite
      · intro _
        exact trivial
      · intro _
        exact beginsWith_binary token.pos op right hleft

theorem fronts_power : Fronts names (power next) tokens := by
  have hlevel : forall limit, Fronts names (powerWithin next limit) tokens := by
    intro limit
    cases limit with
    | zero => exact hnext
    | succ limit =>
        apply Resolved.bind hnext
        intro b left rest hleft
        apply Yields.skip
        intro kind rest
        apply Ensures.ite
        · intro _
          apply Yields.skip
          intro token rest
          apply Yields.skip
          intro right rest
          exact beginsWith_binary token.pos .pow right hleft
        · intro _
          exact hleft
  exact hlevel tokens.length

include hname

theorem fronts_unary : Fronts names (unary next) tokens := by
  have hplain : unary next tokens = next tokens := by
    change unaryWithin next tokens.length tokens = next tokens
    cases tokens.length with
    | zero => rfl
    | succ limit =>
        rw [unaryWithin, currentKind_bind, hname]
        rfl
  unfold Fronts Resolved Yields Ensures at hnext ⊢
  rwa [hplain]

omit hnext

variable (names) in
theorem fronts_expression : Fronts names (expression names) tokens := by
  obtain ⟨t, rest, rfl, ht⟩ := exists_front hname (by decide)
  have hoperand : Fronts names (operand names (expressionWithin names rest.length)) (t :: rest) := by
    have h := resolved_operand names (expressionWithin names rest.length) (t :: rest) hname
    unfold Fronts Resolved at h ⊢
    cases hfind : names.find (frontToken (t :: rest)).text with
    | none => rwa [hfind] at h
    | some b =>
        rw [hfind] at h
        exact h.mono fun _ _ => Expr.Uses.beginsWith
  exact fronts_comparison (fronts_chain (fronts_chain (fronts_power
    (fronts_unary hname hoperand)) _) _)

end Fronts

/-!
# Places
-/

namespace Place

variable (place : Place)

def Innermost (name : String) (b : Binding) : Prop :=
  exists inner scope outer, place.scopes = inner ++ scope :: outer ∧
    (forall closer, closer ∈ inner -> forall b', b' ∈ closer -> b'.name ≠ name) ∧
    scope.find? (·.name == name) = some b

theorem find_eq_some_iff (name : String) (b : Binding) :
    place.find name = some b <-> place.Innermost name b := by
  unfold find innermost Innermost
  rw [List.findSome?_eq_some_iff]
  constructor
  · rintro ⟨inner, scope, outer, hscopes, hfound, hinner⟩
    refine ⟨inner, scope, outer, hscopes, ?_, hfound⟩
    intro closer hcloser b' hb'
    simpa using List.find?_eq_none.mp (hinner closer hcloser) b' hb'
  · rintro ⟨inner, scope, outer, hscopes, hinner, hfound⟩
    refine ⟨inner, scope, outer, hscopes, hfound, ?_⟩
    intro closer hcloser
    rw [List.find?_eq_none]
    intro b' hb'
    simpa using hinner closer hcloser b' hb'

theorem find_eq_none_iff (name : String) :
    place.find name = none <->
      forall scope, scope ∈ place.scopes -> forall b, b ∈ scope -> b.name ≠ name := by
  simp [find, innermost, List.findSome?_eq_none_iff, List.find?_eq_none]

theorem declare_duplicate {b : Binding} (hb : b ∈ place.here) (category : Category)
    (type : ValueType) (pos : Option Pos) (enter : Program -> Program) (t : LexicalState) :
    Lexical.declare place category b.name type pos enter t =
      .error { cause := .duplicate b.name, pos := pos } := by
  have hdeclared : place.isDeclaredHere b.name = true :=
    List.any_eq_true.mpr ⟨b, hb, beq_self_eq_true b.name⟩
  rw [Lexical.declare, if_pos hdeclared]
  rfl

/-- Every way to use and to declare a name follows the scopes around the place.  The first
fields are about the scopes, the next about a name at the front of what uses it, the ones
behind them about all names of an expression or of a statement, and the last about a name
that is declared. -/
structure BindsNames : Prop where
  bound : forall name b, place.find name = some b <-> place.Innermost name b
  unbound : forall name, place.find name = none <->
    forall scope, scope ∈ place.scopes -> forall b, b ∈ scope -> b.name ≠ name
  operand : forall program inner tokens, (frontToken tokens).kind = .name ->
    Resolved place.find (frontToken tokens) (.undefined (frontToken tokens).text)
      (Parse.operand (place.names program) inner) tokens
      fun b e => e.Uses (frontToken tokens).pos b
  expression : forall program tokens, (frontToken tokens).kind = .name ->
    Resolved place.find (frontToken tokens) (.undefined (frontToken tokens).text)
      (Parse.expression (place.names program)) tokens
      fun b e => e.BeginsWith b
  target : forall program name tokens,
    Resolved place.find name (.undefined name.text)
      (Parse.lookupVar (place.names program) name.text name.pos) tokens
      fun b id => b.category = .var ∧ id = b.id
  awaited : forall program word name rest, word.kind = .awaitWord -> name.kind = .name ->
    Resolved place.find name (.undefined name.text)
      (Parse.awaitStmt (place.names program)) (word :: name :: rest)
      fun b s => b.category = .var ∧ s = .await word.pos b.id
  statement : forall program tokens, (frontToken tokens).kind = .name ->
    Resolved place.find (frontToken tokens) (.undefined (frontToken tokens).text)
      (Parse.nameStmt (place.names program)) tokens
      fun b s => s.Uses (frontToken tokens).pos b
  started : forall program target type tokens, (frontToken tokens).kind = .name ->
    Resolved place.find (frontToken tokens) (.undefined (frontToken tokens).text)
      (Parse.asyncCall (place.names program) target type) tokens
      fun b call => b.category = .function ∧ call.1 = b.id
  initializer : forall program name type tokens, (frontToken tokens).kind = .name ->
    Resolved place.find (frontToken tokens) (.invalidConstant name type)
      (Parse.constInitializer (place.names program) name type) tokens
      fun b value => b.category = .const ∧ value = (program.constant b.id).value
  inExpression : forall program more, (place.names program).Within more ->
    Resolves (place.names program) Expr.Says (Parse.expression (place.names program))
      (Parse.expression more)
  inStatement : forall program more, (place.names program).Within more ->
    Resolves (place.names program) Stmt.Says (Parse.nameStmt (place.names program))
      (Parse.nameStmt more)
  inAwait : forall program more, (place.names program).Within more ->
    Resolves (place.names program) Stmt.Says (Parse.awaitStmt (place.names program))
      (Parse.awaitStmt more)
  inReturn : forall program more tokens, (place.names program).Within more ->
    (frontToken tokens).kind = .returnWord ->
    Resolving (place.names program) Stmt.Says tokens
      (Parse.returnStmt (place.names program) tokens) (Parse.returnStmt more tokens)
  inStart : forall program more target type, (place.names program).Within more ->
    Resolves (place.names program) CallSays (Parse.asyncCall (place.names program) target type)
      (Parse.asyncCall more target type)
  duplicate : forall b, b ∈ place.here -> forall category type pos enter t,
    Lexical.declare place category b.name type pos enter t =
      .error { cause := .duplicate b.name, pos := pos }

theorem bindsNames : place.BindsNames where
  bound := place.find_eq_some_iff
  unbound := place.find_eq_none_iff
  operand := fun program => resolved_operand (place.names program)
  expression := fun program _ hname => fronts_expression (place.names program) hname
  target := fun program => resolved_lookupVar (place.names program)
  awaited := fun program => resolved_awaitStmt (place.names program)
  statement := fun program => resolved_nameStmt (place.names program)
  started := fun program => resolved_asyncCall (place.names program)
  initializer := fun program => resolved_constInitializer (place.names program)
  inExpression := fun _ _ => resolves_expression
  inStatement := fun _ _ => resolves_nameStmt
  inAwait := fun _ _ => resolves_awaitStmt
  inReturn := fun _ _ _ hmore hword => resolving_returnStmt hmore (by rw [hword]; decide)
  inStart := fun _ _ target type hmore => resolves_asyncCall hmore target type
  duplicate := fun _ hb => place.declare_duplicate hb

end Place

/-- A program is read by its block structure: the parser gives the answer of the
lexical reader, be it a program or an error, and at each place of the lexical reader
names stand for their innermost complete declarations. -/
theorem parse_binds_lexically {body : Type} (externs : List (Extern body))
    (tokens : List Token) :
    parse externs tokens = parseLexically externs tokens ∧
      forall place : Place, place.BindsNames := by
  refine ⟨?_, Place.bindsNames⟩
  have hagree := agree_wholeProgram externs tokens
  unfold parse parseLexically
  change Agree _ ((Parse.wholeProgram externs).run (.ofTokens tokens))
    ((Lexical.wholeProgram externs).run (Lexical.start tokens)) at hagree
  generalize (Parse.wholeProgram externs).run (.ofTokens tokens) = r at hagree
  generalize (Lexical.wholeProgram externs).run (Lexical.start tokens) = r' at hagree
  cases hagree with
  | failed e => rfl
  | done hsame =>
      rcases hsame with ⟨rfl, hprogram, hskipped⟩
      simp only [hprogram, hskipped]

end Scriptlet
