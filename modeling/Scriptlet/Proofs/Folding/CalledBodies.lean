import Scriptlet.Folding.Statement
import Scriptlet.Proofs.Program.Calls
import Scriptlet.Proofs.Program.WellFormed

/-!
# Bodies that calls at compile time read

A call at compile time reads the bodies of the functions that it comes by and no others.
While the body of a function is empty in the table because it is being folded, a call that
does not come by the function thus yields what it yields in the whole program.
-/

namespace Scriptlet

section Congruence

variable {p q : Program} {invoke invoke' : ConstEval.Invoke}

def Mention.SameCallee (p q : Program) (invoke invoke' : ConstEval.Invoke) (m : Mention) : Prop :=
  forall f, m.callee? = some f -> q.function f = p.function f ∧ invoke' f = invoke f

structure Program.SameEntries (p q : Program) : Prop where
  constants : q.constants = p.constants
  vars : q.vars = p.vars

theorem Program.SameEntries.constant (h : p.SameEntries q) (id : ConstId) :
    q.constant id = p.constant id := by
  rw [Program.constant, h.constants, ← Program.constant]

theorem Program.SameEntries.variableAt (h : p.SameEntries q) (id : VarId) :
    q.variableAt id = p.variableAt id := by
  rw [Program.variableAt, h.vars, ← Program.variableAt]

theorem Program.SameEntries.readVar (h : p.SameEntries q) (id : VarId) :
    ConstEval.readVar q id = ConstEval.readVar p id := by
  funext c
  simp only [ConstEval.readVar, h.variableAt]

theorem Program.SameEntries.writeVar (h : p.SameEntries q) (id : VarId) (v : Value) :
    ConstEval.writeVar q id v = ConstEval.writeVar p id v := by
  funext c
  simp only [ConstEval.writeVar, h.variableAt]

mutual

theorem constExpr_congr (h : p.SameEntries q) : forall e : Expr,
    Admitted (Mention.SameCallee p q invoke invoke') e.mentions ->
    ConstEval.expr q invoke' e = ConstEval.expr p invoke e
  | .literal _ _, _ => rfl
  | .const _ id, _ => by
      rw [ConstEval.expr, ConstEval.expr, h.constant]
  | .var _ id, _ => h.readVar id
  | .unary _ op operand, hsame => by
      rw [ConstEval.expr, ConstEval.expr, constExpr_congr h operand hsame]
  | .binary _ op left right, hsame => by
      have hleft := constExpr_congr h left hsame.left
      have hright := constExpr_congr h right hsame.right
      rw [ConstEval.expr, ConstEval.expr, hleft, hright]
  | .call _ f args, hsame => by
      rcases hsame.head f rfl with ⟨hfunction, hinvoke⟩
      have hargs := fun params => constArguments_congr h params args hsame.tail
      simp only [ConstEval.expr, hfunction, hinvoke, hargs]

theorem constArguments_congr (h : p.SameEntries q) : forall (params : List Param)
    (args : List Expr),
    Admitted (Mention.SameCallee p q invoke invoke') (Expr.listMentions args) ->
    ConstEval.arguments q invoke' params args = ConstEval.arguments p invoke params args
  | param :: params, arg :: args, hsame => by
      have harg := constExpr_congr h arg hsame.left
      have hargs := constArguments_congr h params args hsame.right
      rw [ConstEval.arguments, ConstEval.arguments, harg, hargs]
  | [], [], _ => rfl
  | [], _ :: _, _ => rfl
  | _ :: _, [], _ => rfl

end

theorem constCondition_congr (h : p.SameEntries q) {cond : Expr}
    (hsame : Admitted (Mention.SameCallee p q invoke invoke') cond.mentions) :
    ConstEval.condition q invoke' cond = ConstEval.condition p invoke cond := by
  rw [ConstEval.condition, ConstEval.condition, constExpr_congr h cond hsame]

mutual

theorem constStmt_congr (h : p.SameEntries q) (limit : Nat) : forall s : Stmt,
    Admitted (Mention.SameCallee p q invoke invoke') s.mentions ->
    ConstEval.stmt q limit invoke' s = ConstEval.stmt p limit invoke s
  | .constDecl _ _, _ => rfl
  | .funDecl _ _, _ => rfl
  | .varDecl _ _ none, _ => rfl
  | .varDecl _ id (some init), hsame => by
      have hinit := constExpr_congr h init hsame.tail
      simp only [ConstEval.stmt, hinit, h.writeVar]
  | .block _ body, hsame => constStmts_congr h limit body hsame
  | .ifThen _ cond _ body, hsame => by
      have hcond := constCondition_congr h hsame.left
      have hbody := constStmts_congr h limit body hsame.right
      rw [ConstEval.stmt, ConstEval.stmt, hcond, hbody]
  | .whileDo _ cond _ body, hsame => by
      have hcond := constCondition_congr h hsame.left
      have hbody := constStmts_congr h limit body hsame.right
      rw [ConstEval.stmt, ConstEval.stmt, hcond, hbody]
  | .ret _ value, hsame => by
      rw [ConstEval.stmt, ConstEval.stmt, constExpr_congr h value hsame]
  | .assign _ target value, hsame => by
      have hvalue := constExpr_congr h value hsame.tail
      simp only [ConstEval.stmt, hvalue, h.writeVar]
  | .call _ f args, hsame => by
      rcases hsame.head f rfl with ⟨hfunction, hinvoke⟩
      have hargs := fun params => constArguments_congr h params args hsame.tail
      simp only [ConstEval.stmt, ConstEval.callStmt, hfunction, hinvoke, hargs]
  | .async _ _ _ _, _ => rfl
  | .await _ _, _ => rfl

theorem constStmts_congr (h : p.SameEntries q) (limit : Nat) : forall body : List Stmt,
    Admitted (Mention.SameCallee p q invoke invoke') (Stmt.listMentions body) ->
    ConstEval.stmts q limit invoke' body = ConstEval.stmts p limit invoke body
  | [], _ => rfl
  | s :: rest, hsame => by
      have hs := constStmt_congr h limit s hsame.left
      have hrest := constStmts_congr h limit rest hsame.right
      rw [ConstEval.stmts, ConstEval.stmts, hs, hrest]

end

theorem invokeWithin_congr (h : p.SameEntries q) (depth : Nat) : forall f,
    (forall g, p.Reaches f g -> q.function g = p.function g) ->
    ConstEval.invokeWithin q depth f = ConstEval.invokeWithin p depth f := by
  -- By induction on the calls that may still be nested: a body calls only functions that the call
  -- comes by.
  induction depth with
  | zero => exact fun _ _ => rfl
  | succ depth ih =>
      intro f hsame
      funext args
      simp only [ConstEval.invokeWithin, hsame f .refl]
      cases hblock : (p.function f).body with
      | none => rfl
      | some block =>
          have hmentions := Program.mentionsOf_of_body hblock
          have hcallees : Admitted (Mention.SameCallee p q (ConstEval.invokeWithin p depth)
              (ConstEval.invokeWithin q depth)) (Stmt.listMentions block.body) := by
            intro m hm g hcallee
            have hreaches : forall k, p.Reaches g k -> p.Reaches f k :=
              fun k => .of_callee (hmentions ▸ hm) hcallee
            exact ⟨hsame g (hreaches g .refl), ih g fun k hk => hsame k (hreaches k hk)⟩
          simp only [constStmts_congr h depth block.body hcallees]

theorem evalCall_congr (h : p.SameEntries q) {f : FunId}
    (hsame : forall g, p.Reaches f g -> q.function g = p.function g) (quota : Nat)
    (globals : Valuation) (args : List Value) :
    evalCall q quota globals f args = evalCall p quota globals f args := by
  rw [evalCall, evalCall, invokeWithin_congr h quota f hsame]

end Congruence

/-- The body of a function makes no difference to calls that do not come by the function,
whatever is in its place while it is folded. -/
theorem evalCall_withBody (p : Program) {f g : FunId} (hreaches : ¬p.Reaches g f)
    (body : List Stmt) (quota : Nat) (globals : Valuation) (args : List Value) :
    evalCall (Fold.withBody p f body) quota globals g args = evalCall p quota globals g args := by
  apply evalCall_congr
  · unfold Fold.withBody
    cases (p.function f).body <;> exact ⟨rfl, rfl⟩
  · intro k hk
    have hne : k ≠ f := fun hsame => hreaches (hsame ▸ hk)
    unfold Fold.withBody
    cases hblock : (p.function f).body with
    | none => rfl
    | some block =>
        show (p.setFunction f _).function k = p.function k
        rw [Program.function_setFunction p (Program.lt_of_body hblock), if_neg hne]

end Scriptlet
