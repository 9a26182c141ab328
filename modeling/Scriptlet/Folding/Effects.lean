import Scriptlet.Program.Tables

/-!
# Side effects

A function has side effects when its body assigns a variable that it does not
own, awaits or starts a task, or calls anything.  The test reads the body only;
declarations inside it do nothing until they are called.
-/

namespace Scriptlet

def Expr.hasCall : Expr -> Bool
  | .literal _ _ => false
  | .const _ _ => false
  | .var _ _ => false
  | .unary _ _ operand => operand.hasCall
  | .binary _ _ left right => left.hasCall || right.hasCall
  | .call _ _ _ => true

def Expr.optionHasCall : Option Expr -> Bool
  | none => false
  | some e => e.hasCall

namespace Program

mutual

def stmtHasEffects (p : Program) (f : FunId) : Stmt -> Bool
  | .constDecl _ _ => false
  | .funDecl _ _ => false
  | .varDecl _ _ init => Expr.optionHasCall init
  | .assign _ target value => (p.variableAt target).owner != some f || value.hasCall
  | .block _ body => p.stmtsHaveEffects f body
  | .ifThen _ cond _ body => cond.hasCall || p.stmtsHaveEffects f body
  | .whileDo _ cond _ body => cond.hasCall || p.stmtsHaveEffects f body
  | .ret _ value => value.hasCall
  | .call _ _ _ => true
  | .async _ _ _ _ => true
  | .await _ _ => true

def stmtsHaveEffects (p : Program) (f : FunId) : List Stmt -> Bool
  | [] => false
  | stmt :: rest => p.stmtHasEffects f stmt || p.stmtsHaveEffects f rest

end

/-- Whether a call of the function may have an effect.  Native functions may do
anything. -/
def hasSideEffects (p : Program) (f : FunId) : Bool :=
  match (p.function f).body with
  | some block => p.stmtsHaveEffects f block.body
  | none => true

end Program

/-!
# Assigned variables

What running a list of statements may assign: the variables named in it, and
every global if it calls anything.
-/

structure Assigned where
  vars : List VarId
  globals : Bool
deriving DecidableEq, Repr

namespace Assigned

def nothing : Assigned :=
  { vars := [], globals := false }

def var (id : VarId) : Assigned :=
  { vars := [id], globals := false }

def globalsIf (calls : Bool) : Assigned :=
  { vars := [], globals := calls }

def union (a b : Assigned) : Assigned :=
  { vars := a.vars ++ b.vars, globals := a.globals || b.globals }

mutual

def byStmt : Stmt -> Assigned
  | .constDecl _ _ => nothing
  | .funDecl _ _ => nothing
  | .varDecl _ id init => (var id).union (globalsIf (Expr.optionHasCall init))
  | .assign _ target value => (var target).union (globalsIf value.hasCall)
  | .block _ body => byStmts body
  | .ifThen _ cond _ body => (globalsIf cond.hasCall).union (byStmts body)
  | .whileDo _ cond _ body => (globalsIf cond.hasCall).union (byStmts body)
  | .ret _ value => globalsIf value.hasCall
  | .call _ _ _ => globalsIf true
  | .async _ target _ _ => (var target).union (globalsIf true)
  | .await _ target => var target

def byStmts : List Stmt -> Assigned
  | [] => nothing
  | stmt :: rest => (byStmt stmt).union (byStmts rest)

end

end Assigned
end Scriptlet
