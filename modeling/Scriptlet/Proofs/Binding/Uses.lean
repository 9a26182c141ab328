import Mathlib.Data.List.Forall2
import Scriptlet.Proofs.Grammar.Levels
import Scriptlet.Proofs.Program.Mention

/-!
# Uses of names

Whatever a reader of expressions takes, the names in it are used one after the other, each for
what it stands for.  With a name that stands for nothing the reader goes as far as it would go
if the name were declared, and ends at the first use of it.
-/

namespace Scriptlet

def Mention.IsOf (b : Binding) : Mention -> Prop
  | .const id => b.category = .const ∧ id = b.id
  | .read id | .assign id | .await id => b.category = .var ∧ id = b.id
  | .call f _ => b.category = .function ∧ f = b.id
  | _ => False

theorem Binding.exists_mention (b : Binding) : exists m : Mention, m.IsOf b := by
  cases hcategory : b.category with
  | const => exact ⟨.const b.id, hcategory, rfl⟩
  | var => exact ⟨.read b.id, hcategory, rfl⟩
  | function => exact ⟨.call b.id 0, hcategory, rfl⟩

namespace Names

def Bind (names : Names) (taken : List Token) (ms : List Mention) : Prop :=
  List.Forall₂ (fun t m => exists b, names.find t.text = some b ∧ m.IsOf b)
    (taken.filter (·.kind == .name)) ms

/-- More is declared in the second meaning of names, over the same tables. -/
structure Within (names more : Names) : Prop where
  find : forall {name b}, names.find name = some b -> more.find name = some b
  program : more.program = names.program

variable {names : Names}

theorem bind_nil : names.Bind [] [] :=
  .nil

theorem Bind.append {u v : List Token} {ms ns : List Mention} (hu : names.Bind u ms)
    (hv : names.Bind v ns) : names.Bind (u ++ v) (ms ++ ns) := by
  unfold Bind
  rw [List.filter_append]
  exact List.rel_append hu hv

theorem bind_other {t : Token} (ht : t.kind ≠ .name) : names.Bind [t] [] := by
  unfold Bind
  rw [List.filter_cons_of_neg (by simpa using ht)]
  exact .nil

theorem bind_name {t : Token} (ht : t.kind = .name) {b : Binding} (hb : names.find t.text = some b)
    {m : Mention} (hm : m.IsOf b) : names.Bind [t] [m] := by
  unfold Bind
  rw [List.filter_cons_of_pos (by simpa using ht)]
  exact .cons ⟨b, hb, hm⟩ .nil

end Names

/-- How reading goes with some names against how it goes with more of them.  What is taken
binds its names to the mentions of the answer.  If the readings differ, then the first one has
ended at the first use of a name that is not declared. -/
inductive Resolving {α : Type} (names : Names) (post : α -> List Mention -> Prop)
    (tokens : List Token) :
    Except ParseError (α × List Token) -> Except ParseError (α × List Token) -> Prop where
  | read {a : α} {taken rest : List Token} {ms : List Mention} :
      tokens = taken ++ rest -> names.Bind taken ms -> post a ms ->
      Resolving names post tokens (.ok (a, rest)) (.ok (a, rest))
  | failed (e : ParseError) : Resolving names post tokens (.error e) (.error e)
  | undefined {before rest : List Token} {name : Token} {ms : List Mention}
      {other : Except ParseError (α × List Token)} :
      tokens = before ++ name :: rest -> names.Bind before ms -> name.kind = .name ->
      names.find name.text = none ->
      Resolving names post tokens
        (.error { cause := .undefined name.text, pos := some name.pos }) other

def Resolves {α : Type} (names : Names) (post : α -> List Mention -> Prop)
    (x y : TokenParse α) : Prop :=
  forall tokens, Resolving names post tokens (x tokens) (y tokens)

section Rules

variable {α β : Type} {names : Names} {post : α -> List Mention -> Prop}
  {post' : β -> List Mention -> Prop} {tokens : List Token}

theorem Resolving.mono {post₁ post₂ : α -> List Mention -> Prop}
    {r r' : Except ParseError (α × List Token)} (h : Resolving names post₁ tokens r r')
    (himp : forall a ms, post₁ a ms -> post₂ a ms) : Resolving names post₂ tokens r r' := by
  cases h with
  | failed e => exact .failed e
  | read hsplit htaken hpost => exact .read hsplit htaken (himp _ _ hpost)
  | undefined hsplit hbefore hname hfind => exact .undefined hsplit hbefore hname hfind

theorem Resolving.behind {taken rest : List Token} {ms : List Mention}
    {r r' : Except ParseError (α × List Token)} (hsplit : tokens = taken ++ rest)
    (htaken : names.Bind taken ms)
    (h : Resolving names (fun a more => post a (ms ++ more)) rest r r') :
    Resolving names post tokens r r' := by
  subst hsplit
  cases h with
  | failed e => exact .failed e
  | read hrest hmore hpost =>
      rw [hrest, ← List.append_assoc]
      exact .read rfl (htaken.append hmore) hpost
  | undefined hrest hbefore hname hfind =>
      rw [hrest, ← List.append_assoc]
      exact .undefined rfl (htaken.append hbefore) hname hfind

theorem Resolving.bind {x y : TokenParse α} {f g : α -> TokenParse β}
    (hx : Resolving names post tokens (x tokens) (y tokens))
    (hf : forall a ms, post a ms ->
      Resolves names (fun b more => post' b (ms ++ more)) (f a) (g a)) :
    Resolving names post' tokens ((x >>= f) tokens) ((y >>= g) tokens) := by
  change Resolving names post' tokens (x tokens >>= fun r => f r.1 r.2)
    (y tokens >>= fun r => g r.1 r.2)
  generalize x tokens = first at hx
  generalize y tokens = second at hx
  cases hx with
  | failed e => exact .failed e
  | undefined hsplit hbefore hname hfind => exact .undefined hsplit hbefore hname hfind
  | read hsplit htaken hpost => exact (hf _ _ hpost _).behind hsplit htaken

theorem Resolves.mono {post₁ post₂ : α -> List Mention -> Prop} {x y : TokenParse α}
    (h : Resolves names post₁ x y) (himp : forall a ms, post₁ a ms -> post₂ a ms) :
    Resolves names post₂ x y :=
  fun tokens => (h tokens).mono himp

theorem Resolves.bind {x y : TokenParse α} {f g : α -> TokenParse β}
    (hx : Resolves names post x y)
    (hf : forall a ms, post a ms ->
      Resolves names (fun b more => post' b (ms ++ more)) (f a) (g a)) :
    Resolves names post' (x >>= f) (y >>= g) :=
  fun tokens => (hx tokens).bind hf

theorem resolves_pure {a : α} (h : post a []) :
    Resolves names post (pure a : TokenParse α) (pure a) :=
  fun _ => .read (List.nil_append _).symm Names.bind_nil h

theorem resolves_fail (cause : ParseCause) (pos : Option Pos) :
    Resolves names post (Parse.fail cause pos : TokenParse α) (Parse.fail cause pos) :=
  fun _ => .failed _

theorem resolves_fail_bind (cause : ParseCause) (pos : Option Pos) (f g : β -> TokenParse α) :
    Resolves names post ((Parse.fail cause pos : TokenParse β) >>= f)
      ((Parse.fail cause pos : TokenParse β) >>= g) :=
  fun _ => .failed _

theorem Resolves.ite {c : Prop} [Decidable c] {x x' y y' : TokenParse α}
    (hthen : c -> Resolves names post x y) (helse : ¬c -> Resolves names post x' y') :
    Resolves names post (if c then x else x') (if c then y else y') := by
  by_cases hc : c
  · rw [if_pos hc, if_pos hc]
    exact hthen hc
  · rw [if_neg hc, if_neg hc]
    exact helse hc

end Rules

/-!
# Steps that take no name
-/

section Steps

open Parse

variable {α β : Type} {names : Names} {post : α -> List Mention -> Prop} {tokens : List Token}

abbrev Skips {β : Type} (names : Names) (x : TokenParse β) : Prop :=
  Resolves names (fun _ ms => ms = []) x x

theorem Skips.bind {x : TokenParse β} {f g : β -> TokenParse α} (hx : Skips names x)
    (hf : forall b, Resolves names post (f b) (g b)) :
    Resolves names post (x >>= f) (x >>= g) :=
  Resolves.bind hx fun b _ hnone => hnone ▸ hf b

theorem resolving_advance {f g : Token -> TokenParse α} (hkind : (frontToken tokens).kind ≠ .name)
    (hf : Resolves names post (f (frontToken tokens)) (g (frontToken tokens))) :
    Resolving names post tokens ((advance >>= f) tokens) ((advance >>= g) tokens) := by
  change Resolving names post tokens (f (frontToken tokens) (dropFront tokens))
    (g (frontToken tokens) (dropFront tokens))
  cases tokens with
  | nil => exact hf _
  | cons t rest =>
      by_cases hend : t.isEnd = true
      · have hkept : dropFront (t :: rest) = t :: rest := by simp [dropFront, frontToken, hend]
        rw [hkept]
        exact hf _
      · have hdropped : dropFront (t :: rest) = rest := by simp [dropFront, frontToken, hend]
        rw [hdropped]
        exact (hf _).behind rfl (Names.bind_other hkind)

theorem skips_current : Skips names current :=
  fun _ => .read (List.nil_append _).symm Names.bind_nil rfl

theorem skips_currentKind : Skips names currentKind :=
  fun _ => .read (List.nil_append _).symm Names.bind_nil rfl

theorem skips_tokensLeft : Skips names tokensLeft :=
  fun _ => .read (List.nil_append _).symm Names.bind_nil rfl

theorem resolves_failExpected (expected : Expectation) :
    Resolves names post (failExpected expected : TokenParse α) (failExpected expected) :=
  fun _ => .failed _

theorem skips_accept {kind : TokenKind} (hkind : kind ≠ .name) : Skips names (accept kind) := by
  intro tokens
  rw [accept, currentKind_bind]
  by_cases hfront : (frontToken tokens).kind = kind
  · rw [if_pos hfront]
    exact resolving_advance (hfront ▸ hkind) (resolves_pure rfl)
  · rw [if_neg hfront]
    exact (resolves_pure rfl : Skips names (pure false)) tokens

theorem skips_expect {kind : TokenKind} (hkind : kind ≠ .name) : Skips names (expect kind) := by
  intro tokens
  rw [expect, currentKind_bind]
  by_cases hfront : (frontToken tokens).kind = kind
  · rw [if_pos hfront, ← bind_pure advance]
    exact resolving_advance (hfront ▸ hkind) (resolves_pure rfl)
  · rw [if_neg hfront]
    exact resolves_failExpected _ tokens

theorem expect_front {kind : TokenKind} (hkind : (frontToken tokens).kind = kind) :
    expect kind tokens = .ok (frontToken tokens, dropFront tokens) := by
  rw [expect, currentKind_bind, if_pos hkind]
  rfl

theorem expect_other {kind : TokenKind} (hkind : (frontToken tokens).kind ≠ kind) :
    expect kind tokens = failExpected (.token kind) tokens := by
  rw [expect, currentKind_bind, if_neg hkind]

theorem skips_literalValue (token : Token) : Skips names (literalValue token) := by
  unfold literalValue
  cases literalValue? token with
  | some value => exact resolves_pure rfl
  | none => exact resolves_fail _ _

/-- A name at the front is taken, and what it stands for is up to its user. -/
theorem resolving_lookup {more : Names} (hmore : names.Within more)
    (hname : (frontToken tokens).kind = .name) {f g : Binding -> TokenParse α}
    (hf : forall b, names.find (frontToken tokens).text = some b ->
      Resolves names (fun a ms => exists m : Mention, m.IsOf b ∧ post a (m :: ms)) (f b) (g b)) :
    Resolving names post tokens
      ((lookup names (frontToken tokens).text (frontToken tokens).pos >>= f) (dropFront tokens))
      ((lookup more (frontToken tokens).text (frontToken tokens).pos >>= g)
        (dropFront tokens)) := by
  obtain ⟨t, rest, rfl, ht⟩ := exists_front hname (by decide)
  rw [dropFront_cons ht (by decide)]
  change Resolving names post (t :: rest) ((lookup names t.text t.pos >>= f) rest)
    ((lookup more t.text t.pos >>= g) rest)
  change forall b, names.find t.text = some b -> _ at hf
  unfold lookup
  cases hfind : names.find t.text with
  | none => exact .undefined (List.nil_append _).symm Names.bind_nil ht hfind
  | some b =>
      have hnext := hf b hfind rest
      rw [hmore.find hfind]
      change Resolving names post (t :: rest) (f b rest) (g b rest)
      generalize f b rest = first at hnext
      generalize g b rest = second at hnext
      cases hnext with
      | failed e => exact .failed e
      | read hrest htaken hpost =>
          obtain ⟨m, hm, hpost⟩ := hpost
          rw [hrest]
          exact .read rfl ((Names.bind_name ht hfind hm).append htaken) hpost
      | undefined hrest hbefore hundeclared hnone =>
          obtain ⟨m, hm⟩ := b.exists_mention
          rw [hrest]
          exact .undefined rfl ((Names.bind_name ht hfind hm).append hbefore) hundeclared hnone

end Steps

/-!
# Calls
-/

def Expr.Says (e : Expr) (ms : List Mention) : Prop :=
  e.mentions = ms

def ArgsSay (args : List Expr) (ms : List Mention) : Prop :=
  Expr.listMentions args = ms

def Stmt.Says (s : Stmt) (ms : List Mention) : Prop :=
  s.mentions = ms

def CallSays (call : FunId × List Expr) (ms : List Mention) : Prop :=
  .call call.1 call.2.length :: Expr.listMentions call.2 = ms

section Calls

open Parse

variable {names more : Names} {inner inner' : TokenParse Expr}
  (hinner : Resolves names Expr.Says inner inner')

include hinner

theorem resolves_argumentsWithin (limit : Nat) :
    Resolves names ArgsSay (argumentsWithin inner limit) (argumentsWithin inner' limit) := by
  have hlast : forall (e : Expr) (ms : List Mention), e.Says ms ->
      Resolves names (fun args rest => ArgsSay args (ms ++ rest))
        (do
          let _ ← expect .closeParen
          return [e])
        (do
          let _ ← expect .closeParen
          return [e]) := by
    rintro e _ rfl
    exact (skips_expect (by decide)).bind fun _ => resolves_pure rfl
  induction limit with
  | zero => exact hinner.bind hlast
  | succ limit ih =>
      apply hinner.bind
      intro e ms he
      apply (skips_accept (by decide)).bind
      intro isComma
      apply Resolves.ite
      · intro _
        apply ih.bind
        intro args ms' hargs
        apply resolves_pure
        rw [List.append_nil, ← he, ← hargs]
        rfl
      · intro _
        exact hlast e ms he

theorem resolves_arguments : Resolves names ArgsSay (arguments inner) (arguments inner') := by
  apply (skips_expect (by decide)).bind
  intro opening
  apply (skips_accept (by decide)).bind
  intro isClosed
  apply Resolves.ite
  · intro _
    exact resolves_pure rfl
  · intro _
    exact skips_tokensLeft.bind (resolves_argumentsWithin hinner)

theorem resolves_callArguments (hmore : names.Within more) (callee : Binding) (pos : Pos) :
    Resolves names ArgsSay (callArguments names inner callee pos)
      (callArguments more inner' callee pos) := by
  unfold callArguments
  rw [hmore.program]
  apply Resolves.ite
  · intro _
    exact resolves_fail_bind _ _ _ _
  · intro _
    apply (resolves_arguments hinner).bind
    intro args ms hargs
    apply Resolves.ite
    · intro _
      exact resolves_fail_bind _ _ _ _
    · intro _
      apply resolves_pure
      rw [List.append_nil]
      exact hargs

end Calls

/-!
# The levels of an expression
-/

section Levels

open Parse

theorem ne_name_of_eq_some {α : Type} {op? : TokenKind -> Option α} {kind : TokenKind} {op : α}
    (hname : op? .name = none) (h : op? kind = some op) : kind ≠ .name := by
  rintro rfl
  rw [hname] at h
  cases h

theorem says_binary {left right : Expr} (pos : Pos) (op : BinaryOp) {ms ms' : List Mention}
    (hleft : left.Says ms) (hright : right.Says ms') :
    (Expr.binary pos op left right).Says (ms ++ ms') :=
  congr_arg₂ (· ++ ·) hleft hright

variable {names : Names} {next next' : TokenParse Expr}
  (hnext : Resolves names Expr.Says next next')

include hnext

theorem resolves_unary : Resolves names Expr.Says (unary next) (unary next') := by
  apply skips_tokensLeft.bind
  intro limit
  induction limit with
  | zero => exact hnext
  | succ limit ih =>
      intro tokens
      rw [unaryWithin, unaryWithin, currentKind_bind, currentKind_bind]
      cases hop : unaryOp? (frontToken tokens).kind with
      | none => exact hnext tokens
      | some op =>
          apply resolving_advance (ne_name_of_eq_some rfl hop)
          apply ih.bind
          intro e ms he
          exact resolves_pure (by rwa [List.append_nil])

theorem resolves_power : Resolves names Expr.Says (power next) (power next') := by
  apply skips_tokensLeft.bind
  intro limit
  induction limit with
  | zero => exact hnext
  | succ limit ih =>
      apply hnext.bind
      intro left ms hleft tokens
      rw [currentKind_bind, currentKind_bind]
      by_cases hcaret : (frontToken tokens).kind = .caret
      · rw [if_pos hcaret, if_pos hcaret]
        apply resolving_advance (by rw [hcaret]; decide)
        apply ih.bind
        intro right ms' hright
        apply resolves_pure
        rw [List.append_nil]
        exact says_binary _ .pow hleft hright
      · rw [if_neg hcaret, if_neg hcaret]
        exact resolves_pure (by rwa [List.append_nil]) tokens

theorem resolves_chain {op? : TokenKind -> Option BinaryOp} (hop? : op? .name = none) :
    Resolves names Expr.Says (chain op? next) (chain op? next') := by
  apply hnext.bind
  intro left ms hleft
  apply skips_tokensLeft.bind
  intro limit
  induction limit generalizing left ms with
  | zero => exact resolves_pure (by rwa [List.append_nil])
  | succ limit ih =>
      intro tokens
      rw [chainWithin, chainWithin, currentKind_bind, currentKind_bind]
      cases hop : op? (frontToken tokens).kind with
      | none => exact resolves_pure (by rwa [List.append_nil]) tokens
      | some op =>
          apply resolving_advance (ne_name_of_eq_some hop? hop)
          apply hnext.bind
          intro right ms' hright
          apply (ih _ _ (says_binary _ op hleft hright)).mono
          intro e rest he
          rwa [← List.append_assoc]

theorem resolves_comparison : Resolves names Expr.Says (comparison next) (comparison next') := by
  apply hnext.bind
  intro left ms hleft tokens
  rw [currentKind_bind, currentKind_bind]
  cases hop : comparisonOp? (frontToken tokens).kind with
  | none => exact resolves_pure (by rwa [List.append_nil]) tokens
  | some op =>
      apply resolving_advance (ne_name_of_eq_some rfl hop)
      apply hnext.bind
      intro right ms' hright
      apply skips_current.bind
      intro behind
      apply Resolves.ite
      · intro _
        exact resolves_fail_bind _ _ _ _
      · intro _
        apply resolves_pure
        rw [List.append_nil]
        exact says_binary _ op hleft hright

theorem resolves_levels : Resolves names Expr.Says (levels next) (levels next') :=
  resolves_comparison (resolves_chain
    (resolves_chain (resolves_power (resolves_unary hnext)) rfl) rfl)

end Levels

/-!
# Uses of names
-/

section Uses

open Parse

variable {names more : Names} (hmore : names.Within more)

include hmore

theorem resolves_operand {inner inner' : TokenParse Expr}
    (hinner : Resolves names Expr.Says inner inner') :
    Resolves names Expr.Says (operand names inner) (operand more inner') := by
  intro tokens
  rw [operand, operand, current_bind, current_bind]
  have hliteral : (frontToken tokens).kind ≠ .name ->
      Resolving names Expr.Says tokens
        ((do
          let _ ← advance
          return Expr.literal (frontToken tokens).pos (← literalValue (frontToken tokens)) :
            TokenParse Expr) tokens)
        ((do
          let _ ← advance
          return Expr.literal (frontToken tokens).pos (← literalValue (frontToken tokens)) :
            TokenParse Expr) tokens) := by
    intro hkind
    apply resolving_advance hkind
    exact (skips_literalValue _).bind fun _ => resolves_pure rfl
  cases hkind : (frontToken tokens).kind
  case intLit => exact hliteral (by rw [hkind]; decide)
  case floatLit => exact hliteral (by rw [hkind]; decide)
  case boolLit => exact hliteral (by rw [hkind]; decide)
  case name =>
    change Resolving names Expr.Says tokens
      (identifierExpr names inner (frontToken tokens) (dropFront tokens))
      (identifierExpr more inner' (frontToken tokens) (dropFront tokens))
    apply resolving_lookup hmore hkind
    intro b _
    cases hcategory : b.category with
    | const => exact resolves_pure ⟨.const b.id, ⟨hcategory, rfl⟩, rfl⟩
    | var => exact resolves_pure ⟨.read b.id, ⟨hcategory, rfl⟩, rfl⟩
    | function =>
        apply (resolves_callArguments hinner hmore b _).bind
        intro args ms hargs
        apply resolves_pure
        rw [List.append_nil]
        exact ⟨.call b.id args.length, ⟨hcategory, rfl⟩, congr_arg _ hargs⟩
  case openParen =>
    apply resolving_advance (by rw [hkind]; decide)
    apply hinner.bind
    intro e ms he
    apply (skips_expect (by decide)).bind
    intro close
    apply resolves_pure
    rw [List.append_nil, Expr.Says, Expr.mentions_withPos]
    exact he
  all_goals exact resolves_failExpected _ tokens

theorem resolves_expressionWithin (depth : Nat) :
    Resolves names Expr.Says (expressionWithin names depth) (expressionWithin more depth) := by
  induction depth with
  | zero => exact resolves_failExpected _
  | succ depth ih => exact resolves_levels (resolves_operand hmore ih)

theorem resolves_expression : Resolves names Expr.Says (expression names) (expression more) :=
  skips_tokensLeft.bind (resolves_expressionWithin hmore)

/-!
# What uses names and declares none
-/

theorem resolves_expect_lookup {α : Type} {post : α -> List Mention -> Prop}
    {f g : Token -> Binding -> TokenParse α}
    (hf : forall name b, names.find name.text = some b ->
      Resolves names (fun a ms => exists m : Mention, m.IsOf b ∧ post a (m :: ms))
        (f name b) (g name b)) :
    Resolves names post
      (do
        let name ← expect .name
        f name (← lookup names name.text name.pos))
      (do
        let name ← expect .name
        g name (← lookup more name.text name.pos)) := by
  intro tokens
  by_cases hname : (frontToken tokens).kind = .name
  · rw [bind_of_ok (expect_front hname), bind_of_ok (expect_front hname)]
    exact resolving_lookup hmore hname (hf _)
  · change Resolving names post tokens (expect .name tokens >>= _) (expect .name tokens >>= _)
    rw [expect_other hname]
    exact .failed _

theorem resolves_nameStmt :
    Resolves names Stmt.Says (nameStmt names) (nameStmt more) := by
  apply resolves_expect_lookup hmore
  intro name b _
  cases hcategory : b.category with
  | const => exact resolves_fail _ _
  | var =>
      apply skips_currentKind.bind
      intro kind
      apply Resolves.ite
      · intro _
        exact resolves_fail_bind _ _ _ _
      · intro _
        apply (skips_expect (by decide)).bind
        intro assign
        apply (resolves_expression hmore).bind
        intro value ms hvalue
        apply resolves_pure
        rw [List.append_nil]
        exact ⟨.assign b.id, ⟨hcategory, rfl⟩, congr_arg _ hvalue⟩
  | function =>
      apply (resolves_callArguments (resolves_expression hmore) hmore b _).bind
      intro args ms hargs
      apply resolves_pure
      rw [List.append_nil]
      exact ⟨.call b.id args.length, ⟨hcategory, rfl⟩, congr_arg _ hargs⟩

theorem resolves_asyncCall (target : String) (type : ValueType) :
    Resolves names CallSays
      (asyncCall names target type) (asyncCall more target type) := by
  apply resolves_expect_lookup hmore
  intro name b _
  apply Resolves.ite
  · intro _
    exact resolves_fail_bind _ _ _ _
  · intro hcategory
    apply (resolves_callArguments (resolves_expression hmore) hmore b _).bind
    intro args ms hargs
    rw [hmore.program]
    apply Resolves.ite
    · intro _
      exact resolves_fail_bind _ _ _ _
    · intro _
      apply resolves_pure
      rw [List.append_nil]
      exact ⟨.call b.id args.length, ⟨Decidable.not_not.mp hcategory, rfl⟩, congr_arg _ hargs⟩

theorem resolves_awaitStmt :
    Resolves names Stmt.Says (awaitStmt names) (awaitStmt more) := by
  apply (skips_expect (by decide)).bind
  intro word
  simp only [lookupVar, bind_assoc]
  apply resolves_expect_lookup hmore
  intro name b _
  cases hcategory : b.category with
  | var => exact resolves_pure ⟨.await b.id, ⟨hcategory, rfl⟩, rfl⟩
  | const => exact resolves_fail_bind _ _ _ _
  | function => exact resolves_fail_bind _ _ _ _

theorem resolving_returnStmt {tokens : List Token} (hword : (frontToken tokens).kind ≠ .name) :
    Resolving names Stmt.Says tokens (returnStmt names tokens)
      (returnStmt more tokens) := by
  apply resolving_advance hword
  apply (resolves_expression hmore).bind
  intro value ms hvalue
  exact resolves_pure (by rwa [List.append_nil])

end Uses
end Scriptlet
