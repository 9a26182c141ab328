import Scriptlet.Parser.Expression
import Scriptlet.Proofs.Ensures
import Scriptlet.Proofs.Program.WellFormed

/-!
# Expressions name what fits

An expression names table entries only through the names at its place.  Where these
stand for entries that fit the place, so does all that an expression mentions.  A
function is found with the result that its name was declared with, so the tables are
never found to be inconsistent.
-/

namespace Scriptlet

def ParseError.Regular (e : ParseError) : Prop :=
  forall name, e.cause ≠ .inconsistentFunction name

def Gives {α : Type} (p : TokenParse α) (post : α -> Prop) : Prop :=
  forall tokens, Ensures ParseError.Regular p tokens fun a _ => post a

section Rules

variable {α β : Type} {post : α -> Prop} {post' : β -> Prop}

theorem gives_pure {a : α} (h : post a) : Gives (pure a) post :=
  fun _ => h

theorem Gives.bind {p : TokenParse α} {f : α -> TokenParse β} (hp : Gives p post)
    (hf : forall a, post a -> Gives (f a) post') : Gives (p >>= f) post' :=
  fun tokens => (hp tokens).bind fun a rest ha => hf a ha rest

theorem Gives.map {p : TokenParse α} {f : α -> β} (hp : Gives p post)
    (hf : forall a, post a -> post' (f a)) : Gives (f <$> p) post' := by
  rw [map_eq_pure_bind]
  exact hp.bind fun a ha => gives_pure (hf a ha)

theorem Gives.ite {c : Prop} [Decidable c] {p q : TokenParse α} (hp : c -> Gives p post)
    (hq : ¬c -> Gives q post) : Gives (if c then p else q) post := by
  by_cases hc : c
  · rw [if_pos hc]
    exact hp hc
  · rw [if_neg hc]
    exact hq hc

theorem gives_fail {cause : ParseCause} (pos : Option Pos)
    (hcause : forall name, cause ≠ .inconsistentFunction name) :
    Gives (Parse.fail cause pos : TokenParse α) post :=
  fun _ => hcause

end Rules

/-!
# Readers that see no names
-/

abbrev GivesAny {α : Type} (p : TokenParse α) : Prop :=
  Gives p fun _ => True

section Tokens

open Parse

theorem givesAny_current : GivesAny current :=
  fun _ => trivial

theorem givesAny_currentKind : GivesAny currentKind :=
  fun _ => trivial

theorem givesAny_tokensLeft : GivesAny tokensLeft :=
  fun _ => trivial

theorem givesAny_advance : GivesAny advance :=
  fun _ => trivial

theorem givesAny_accept (kind : TokenKind) : GivesAny (accept kind) := by
  apply givesAny_currentKind.bind
  intro found _
  apply Gives.ite
  · intro _
    exact givesAny_advance.bind fun _ _ => gives_pure trivial
  · intro _
    exact gives_pure trivial

theorem gives_failExpected {α : Type} {post : α -> Prop} (expected : Expectation) :
    Gives (failExpected expected) post :=
  givesAny_current.bind fun _ _ => gives_fail _ fun _ h => nomatch h

theorem givesAny_expect (kind : TokenKind) : GivesAny (expect kind) := by
  apply givesAny_currentKind.bind
  intro found _
  exact Gives.ite (fun _ => givesAny_advance) fun _ => gives_failExpected _

theorem gives_expectType : Gives expectType (· ≠ .any) := by
  apply givesAny_currentKind.bind
  intro found _
  cases htype : typeOf? found with
  | none => exact gives_failExpected _
  | some type =>
      have hexact : type ≠ .any := by
        rintro rfl
        cases found <;> cases htype
      exact givesAny_advance.bind fun _ _ => gives_pure hexact

theorem gives_inParameters {α : Type} {p : TokenParse α} {post : α -> Prop} (hp : Gives p post) :
    Gives (inParameters p) post := by
  intro tokens
  have hp := hp tokens
  unfold Ensures at hp ⊢
  unfold inParameters
  cases hanswer : p tokens with
  | ok answer =>
      rw [hanswer] at hp
      exact hp
  | error e =>
      rw [hanswer] at hp
      rcases e with ⟨cause, pos⟩
      cases cause
      case unexpectedToken expected found => exact fun _ h => nomatch h
      all_goals exact hp

def ExactTypes (params : List Parameter) : Prop :=
  forall p, p ∈ params -> p.type ≠ .any

theorem exactTypes_cons {p : Parameter} {params : List Parameter} (hp : p.type ≠ .any)
    (hparams : ExactTypes params) : ExactTypes (p :: params) := by
  intro p' hp'
  rcases List.mem_cons.mp hp' with rfl | hp'
  · exact hp
  · exact hparams p' hp'

theorem exactTypes_nil : ExactTypes [] := by
  intro p hp
  cases hp

theorem gives_parameter : Gives parameter (·.type ≠ .any) := by
  apply (gives_inParameters (givesAny_expect _)).bind
  intro name _
  apply (gives_inParameters (givesAny_expect _)).bind
  intro colon _
  apply (gives_inParameters gives_expectType).bind
  intro type htype
  exact gives_pure htype

theorem gives_parametersWithin (limit : Nat) : Gives (parametersWithin limit) ExactTypes := by
  induction limit with
  | zero =>
      apply gives_parameter.bind
      intro p hp
      apply (gives_inParameters (givesAny_expect _)).bind
      intro close _
      exact gives_pure (exactTypes_cons hp exactTypes_nil)
  | succ limit ih =>
      apply gives_parameter.bind
      intro p hp
      apply (givesAny_accept _).bind
      intro isComma _
      apply Gives.ite
      · intro _
        exact ih.map fun _ hrest => exactTypes_cons hp hrest
      · intro _
        apply (gives_inParameters (givesAny_expect _)).bind
        intro close _
        exact gives_pure (exactTypes_cons hp exactTypes_nil)

theorem gives_parameters : Gives parameters ExactTypes := by
  apply (givesAny_expect _).bind
  intro opening _
  apply (givesAny_accept _).bind
  intro isClosed _
  apply Gives.ite
  · intro _
    exact gives_pure exactTypes_nil
  · intro _
    exact givesAny_tokensLeft.bind fun limit _ => gives_parametersWithin limit

theorem givesAny_literalValue (token : Token) : GivesAny (literalValue token) := by
  unfold literalValue
  cases literalValue? token with
  | some value => exact gives_pure trivial
  | none => exact gives_fail _ fun _ h => nomatch h

end Tokens

/-!
# What expressions may mention
-/

def Expr.Within (admits : Mention -> Prop) (e : Expr) : Prop :=
  Admitted admits e.mentions

def ArgsWithin (admits : Mention -> Prop) (args : List Expr) : Prop :=
  Admitted admits (Expr.listMentions args)

def Stmt.PlainWithin (admits : Mention -> Prop) (s : Stmt) : Prop :=
  s.global? = none ∧ Admitted admits s.mentions

/-- What a name stands for may be mentioned in all ways in which such an entry is used,
and the table of functions agrees with the name on the result. -/
structure Names.Admit (names : Names) (admits : Mention -> Prop) : Prop where
  const : forall {name b}, names.find name = some b -> b.category = .const -> admits (.const b.id)
  var : forall {name b}, names.find name = some b -> b.category = .var ->
    admits (.read b.id) ∧ admits (.assign b.id) ∧ admits (.await b.id)
  function : forall {name b}, names.find name = some b -> b.category = .function ->
    (names.program.function b.id).result = b.type ∧
      admits (.call b.id (names.program.function b.id).params.length)

/-!
# Calls
-/

section Calls

variable {admits : Mention -> Prop} {inner : TokenParse Expr}
  (hinner : Gives inner (Expr.Within admits))

include hinner

theorem gives_argumentsWithin (limit : Nat) :
    Gives (Parse.argumentsWithin inner limit) (ArgsWithin admits) := by
  induction limit with
  | zero =>
      apply hinner.bind
      intro e he
      apply (givesAny_expect _).bind
      intro close _
      exact gives_pure (admitted_append.mpr ⟨he, admitted_nil⟩)
  | succ limit ih =>
      apply hinner.bind
      intro e he
      apply (givesAny_accept _).bind
      intro isComma _
      apply Gives.ite
      · intro _
        exact ih.map fun rest hrest => admitted_append.mpr ⟨he, hrest⟩
      · intro _
        apply (givesAny_expect _).bind
        intro close _
        exact gives_pure (admitted_append.mpr ⟨he, admitted_nil⟩)

theorem gives_arguments : Gives (Parse.arguments inner) (ArgsWithin admits) := by
  apply (givesAny_expect _).bind
  intro opening _
  apply (givesAny_accept _).bind
  intro isClosed _
  apply Gives.ite
  · intro _
    exact gives_pure admitted_nil
  · intro _
    exact givesAny_tokensLeft.bind fun limit _ => gives_argumentsWithin hinner limit

theorem gives_callArguments {names : Names} {callee : Binding}
    (hresult : (names.program.function callee.id).result = callee.type) (pos : Pos) :
    Gives (Parse.callArguments names inner callee pos) fun args =>
      ArgsWithin admits args ∧
        args.length = (names.program.function callee.id).params.length := by
  unfold Parse.callArguments
  apply Gives.ite
  · intro hother
    exact absurd hresult hother
  · intro _
    apply (gives_arguments hinner).bind
    intro args hargs
    apply Gives.ite
    · intro _
      exact Gives.bind (gives_fail _ fun _ h => nomatch h) fun _ (h : False) => h.elim
    · intro harity
      exact gives_pure ⟨hargs, Decidable.not_not.mp harity⟩

end Calls

/-!
# The levels of an expression
-/

section Levels

variable {admits : Mention -> Prop}

theorem within_binary {left right : Expr} (pos : Pos) (op : BinaryOp)
    (hleft : left.Within admits) (hright : right.Within admits) :
    (Expr.binary pos op left right).Within admits :=
  admitted_append.mpr ⟨hleft, hright⟩

variable {next : TokenParse Expr} (hnext : Gives next (Expr.Within admits))

include hnext

theorem gives_unary : Gives (Parse.unary next) (Expr.Within admits) := by
  apply givesAny_tokensLeft.bind
  intro limit _
  induction limit with
  | zero => exact hnext
  | succ limit ih =>
      apply givesAny_currentKind.bind
      intro kind _
      cases Parse.unaryOp? kind with
      | none => exact hnext
      | some op =>
          apply givesAny_advance.bind
          intro token _
          exact ih.map fun operand hoperand => hoperand

theorem gives_power : Gives (Parse.power next) (Expr.Within admits) := by
  apply givesAny_tokensLeft.bind
  intro limit _
  induction limit with
  | zero => exact hnext
  | succ limit ih =>
      apply hnext.bind
      intro left hleft
      apply givesAny_currentKind.bind
      intro kind _
      apply Gives.ite
      · intro _
        apply givesAny_advance.bind
        intro token _
        exact ih.map fun right hright => within_binary token.pos .pow hleft hright
      · intro _
        exact gives_pure hleft

theorem gives_chain (op? : TokenKind -> Option BinaryOp) :
    Gives (Parse.chain op? next) (Expr.Within admits) := by
  apply hnext.bind
  intro left hleft
  apply givesAny_tokensLeft.bind
  intro limit _
  induction limit generalizing left with
  | zero => exact gives_pure hleft
  | succ limit ih =>
      apply givesAny_currentKind.bind
      intro kind _
      cases op? kind with
      | none => exact gives_pure hleft
      | some op =>
          apply givesAny_advance.bind
          intro token _
          apply hnext.bind
          intro right hright
          exact ih _ (within_binary token.pos op hleft hright)

theorem gives_comparison : Gives (Parse.comparison next) (Expr.Within admits) := by
  apply hnext.bind
  intro left hleft
  apply givesAny_currentKind.bind
  intro kind _
  cases Parse.comparisonOp? kind with
  | none => exact gives_pure hleft
  | some op =>
      apply givesAny_advance.bind
      intro token _
      apply hnext.bind
      intro right hright
      apply givesAny_current.bind
      intro behind _
      apply Gives.ite
      · intro _
        exact Gives.bind (gives_fail _ fun _ h => nomatch h) fun _ (h : False) => h.elim
      · intro _
        exact gives_pure (within_binary token.pos op hleft hright)

theorem gives_levels : Gives (Parse.levels next) (Expr.Within admits) :=
  gives_comparison (gives_chain (gives_chain (gives_power (gives_unary hnext)) _) _)

end Levels

/-!
# Uses of names
-/

section Names

theorem gives_lookup (names : Names) (name : String) (pos : Pos) :
    Gives (Parse.lookup names name pos) fun b => names.find name = some b := by
  unfold Parse.lookup
  cases hfind : names.find name with
  | none => exact gives_fail _ fun _ h => nomatch h
  | some b => exact gives_pure rfl

theorem gives_lookupVar (names : Names) (name : String) (pos : Pos) :
    Gives (Parse.lookupVar names name pos) fun id =>
      exists b, names.find name = some b ∧ b.category = .var ∧ b.id = id := by
  apply (gives_lookup names name pos).bind
  intro b hfind
  cases hcategory : b.category with
  | var => exact gives_pure ⟨b, hfind, hcategory, rfl⟩
  | const => exact gives_fail _ fun _ h => nomatch h
  | function => exact gives_fail _ fun _ h => nomatch h

theorem gives_constInitializer (names : Names) (name : String) (type : ValueType) :
    Gives (Parse.constInitializer names name type) fun value => value.type = type := by
  apply givesAny_current.bind
  intro token _
  have hinvalid : forall {α : Type} {post : α -> Prop},
      Gives (Parse.fail (.invalidConstant name type) (some token.pos)) post :=
    gives_fail _ fun _ h => nomatch h
  -- Wherever the value comes from, its type is checked behind it.
  have hchecked : forall value : Value,
      Gives (do
        let _ ← Parse.advance
        if Parse.continuesExpression (← Parse.currentKind) then
          Parse.fail (.invalidConstant name type) (some token.pos)
        if value.type ≠ type then
          Parse.fail (.typeMismatch name type value.type) (some token.pos)
        return value) fun value => value.type = type := by
    intro value
    apply givesAny_advance.bind
    intro _ _
    apply givesAny_currentKind.bind
    intro kind _
    apply Gives.ite
    · intro _
      exact Gives.bind hinvalid fun _ (h : False) => h.elim
    · intro _
      apply Gives.ite
      · intro _
        exact Gives.bind (gives_fail _ fun _ h => nomatch h) fun _ (h : False) => h.elim
      · intro htype
        exact gives_pure (Decidable.not_not.mp htype)
  cases hkind : token.kind
  case intLit => exact (givesAny_literalValue token).bind fun value _ => hchecked value
  case floatLit => exact (givesAny_literalValue token).bind fun value _ => hchecked value
  case boolLit => exact (givesAny_literalValue token).bind fun value _ => hchecked value
  case name =>
    cases Parse.constantValue? names type token with
    | some value => exact hchecked value
    | none => exact Gives.bind hinvalid fun _ (h : False) => h.elim
  all_goals exact Gives.bind hinvalid fun _ (h : False) => h.elim

variable {names : Names} {admits : Mention -> Prop} (hnames : names.Admit admits)

include hnames

theorem gives_identifierExpr {inner : TokenParse Expr} (hinner : Gives inner (Expr.Within admits))
    (token : Token) :
    Gives (Parse.identifierExpr names inner token) (Expr.Within admits) := by
  apply (gives_lookup names token.text token.pos).bind
  intro b hfind
  cases hcategory : b.category with
  | const =>
      exact gives_pure (admitted_cons.mpr ⟨hnames.const hfind hcategory, admitted_nil⟩)
  | var =>
      exact gives_pure (admitted_cons.mpr ⟨(hnames.var hfind hcategory).1, admitted_nil⟩)
  | function =>
      rcases hnames.function hfind hcategory with ⟨hresult, hcall⟩
      apply (gives_callArguments hinner hresult token.pos).map
      rintro args ⟨hargs, harity⟩
      rw [← harity] at hcall
      exact admitted_cons.mpr ⟨hcall, hargs⟩

theorem gives_operand {inner : TokenParse Expr} (hinner : Gives inner (Expr.Within admits)) :
    Gives (Parse.operand names inner) (Expr.Within admits) := by
  have hliteral : forall token : Token,
      Gives (do
        let _ ← Parse.advance
        return .literal token.pos (← Parse.literalValue token))
        (Expr.Within admits) := by
    intro token
    apply givesAny_advance.bind
    intro _ _
    exact (givesAny_literalValue token).map fun _ _ => admitted_nil
  apply givesAny_current.bind
  intro token _
  cases token.kind
  case intLit => exact hliteral token
  case floatLit => exact hliteral token
  case boolLit => exact hliteral token
  case name => exact givesAny_advance.bind fun _ _ => gives_identifierExpr hnames hinner token
  case openParen =>
    apply givesAny_advance.bind
    intro _ _
    apply hinner.bind
    intro e he
    apply (givesAny_expect _).bind
    intro _ _
    apply gives_pure
    rw [Expr.Within, Expr.mentions_withPos]
    exact he
  all_goals exact gives_failExpected _

theorem gives_expressionWithin (depth : Nat) :
    Gives (Parse.expressionWithin names depth) (Expr.Within admits) := by
  induction depth with
  | zero => exact gives_failExpected _
  | succ depth ih => exact gives_levels (gives_operand hnames ih)

theorem gives_expression : Gives (Parse.expression names) (Expr.Within admits) :=
  givesAny_tokensLeft.bind fun depth _ => gives_expressionWithin hnames depth

/-!
# What uses names and declares none
-/

theorem gives_asyncCall (target : String) (type : ValueType) :
    Gives (Parse.asyncCall names target type) fun call =>
      ArgsWithin admits call.2 ∧ admits (.call call.1 call.2.length) ∧
        (names.program.function call.1).result = type ∧
        (names.program.function call.1).result ≠ .none := by
  apply (givesAny_expect _).bind
  intro callee _
  apply (gives_lookup names callee.text callee.pos).bind
  intro b hfind
  apply Gives.ite
  · intro _
    exact Gives.bind (gives_fail _ fun _ h => nomatch h) fun _ (h : False) => h.elim
  · intro hcategory
    rcases hnames.function hfind (Decidable.not_not.mp hcategory) with ⟨hfunction, hcall⟩
    apply (gives_callArguments (gives_expression hnames) hfunction _).bind
    rintro args ⟨hargs, harity⟩
    rw [← harity] at hcall
    apply Gives.ite
    · intro _
      exact Gives.bind (gives_fail _ fun _ h => nomatch h) fun _ (h : False) => h.elim
    · intro hresult
      rw [not_or, Decidable.not_not] at hresult
      exact gives_pure ⟨hargs, hcall, hresult.2, hresult.1⟩

theorem gives_nameStmt : Gives (Parse.nameStmt names) (Stmt.PlainWithin admits) := by
  apply (givesAny_expect _).bind
  intro name _
  apply (gives_lookup names name.text name.pos).bind
  intro b hfind
  cases hcategory : b.category with
  | const => exact gives_fail _ fun _ h => nomatch h
  | var =>
      apply givesAny_currentKind.bind
      intro kind _
      apply Gives.ite
      · intro _
        exact Gives.bind (gives_fail _ fun _ h => nomatch h) fun _ (h : False) => h.elim
      · intro _
        apply (givesAny_expect _).bind
        intro _ _
        apply (gives_expression hnames).map
        intro value hvalue
        exact ⟨rfl, admitted_cons.mpr ⟨(hnames.var hfind hcategory).2.1, hvalue⟩⟩
  | function =>
      rcases hnames.function hfind hcategory with ⟨hresult, hcall⟩
      apply (gives_callArguments (gives_expression hnames) hresult _).map
      rintro args ⟨hargs, harity⟩
      rw [← harity] at hcall
      exact ⟨rfl, admitted_cons.mpr ⟨hcall, hargs⟩⟩

theorem gives_awaitStmt : Gives (Parse.awaitStmt names) (Stmt.PlainWithin admits) := by
  apply (givesAny_expect _).bind
  intro word _
  apply (givesAny_expect _).bind
  intro name _
  apply (gives_lookupVar names name.text name.pos).map
  rintro target ⟨b, hfind, hcategory, rfl⟩
  exact ⟨rfl, admitted_cons.mpr ⟨(hnames.var hfind hcategory).2.2, admitted_nil⟩⟩

theorem gives_returnStmt : Gives (Parse.returnStmt names) (Stmt.PlainWithin admits) := by
  apply givesAny_advance.bind
  intro word _
  apply (gives_expression hnames).map
  intro value hvalue
  exact ⟨rfl, hvalue⟩

end Names

/-!
# Names that fit
-/

/-- A name stands for an entry of its table that may be named where the given functions
stand around. -/
structure Binding.Fits (p : Program) (owners : List FunId) (b : Binding) : Prop where
  name : p.globalName (.of b.category b.id) = b.name
  const : b.category = .const -> b.id < p.constants.length
  var : b.category = .var -> p.HasVar owners b.id
  function : b.category = .function ->
    b.id < p.functions.length ∧ (p.function b.id).result = b.type

def Names.Fit (names : Names) (owners : List FunId) : Prop :=
  forall name b, names.find name = some b -> b.Fits names.program owners

theorem Names.Fit.admits {names : Names} {owners : List FunId} (h : names.Fit owners) :
    names.Admit (Mention.Fits names.program owners) where
  const := fun hfind hcategory => (h _ _ hfind).const hcategory
  var := by
    intro name b hfind hcategory
    have hvar := (h name b hfind).var hcategory
    exact ⟨hvar, hvar, hvar⟩
  function := by
    intro name b hfind hcategory
    have hfunction := (h name b hfind).function hcategory
    exact ⟨hfunction.2, hfunction.1, rfl⟩

end Scriptlet
