import Scriptlet.Operator
import Scriptlet.Source.Position

/-!
# The resolved tree

Every name in the tree is an index into one of the tables of the program, so
expressions and statements are plain data.
-/

namespace Scriptlet

abbrev ConstId := Nat

abbrev VarId := Nat

abbrev FunId := Nat

inductive Expr where
  | literal (pos : Pos) (value : Value)
  | const (pos : Pos) (id : ConstId)
  | var (pos : Pos) (id : VarId)
  | unary (pos : Pos) (op : UnaryOp) (operand : Expr)
  | binary (pos : Pos) (op : BinaryOp) (left right : Expr)
  | call (pos : Pos) (callee : FunId) (args : List Expr)
deriving Inhabited

namespace Expr

def pos : Expr -> Pos
  | literal pos _ => pos
  | const pos _ => pos
  | var pos _ => pos
  | unary pos _ _ => pos
  | binary pos _ _ _ => pos
  | call pos _ _ => pos

def withPos (pos : Pos) : Expr -> Expr
  | literal _ value => literal pos value
  | const _ id => const pos id
  | var _ id => var pos id
  | unary _ op operand => unary pos op operand
  | binary _ op left right => binary pos op left right
  | call _ callee args => call pos callee args

@[simp] theorem pos_withPos (pos : Pos) (e : Expr) : (e.withPos pos).pos = pos := by
  cases e <;> rfl

def literal? : Expr -> Option Value
  | literal _ value => some value
  | _ => none

end Expr

/-- A block's scope and the place of its opening brace. -/
structure BlockHead where
  scope : Nat
  pos : Pos
deriving DecidableEq, Repr, Inhabited

inductive Stmt where
  | constDecl (pos : Pos) (id : ConstId)
  | varDecl (pos : Pos) (id : VarId) (init : Option Expr)
  | funDecl (pos : Pos) (id : FunId)
  | block (head : BlockHead) (body : List Stmt)
  | ifThen (pos : Pos) (cond : Expr) (head : BlockHead) (body : List Stmt)
  | whileDo (pos : Pos) (cond : Expr) (head : BlockHead) (body : List Stmt)
  | ret (pos : Pos) (value : Expr)
  | assign (pos : Pos) (target : VarId) (value : Expr)
  | call (pos : Pos) (callee : FunId) (args : List Expr)
  | async (pos : Pos) (target : VarId) (callee : FunId) (args : List Expr)
  | await (pos : Pos) (target : VarId)
deriving Inhabited

namespace Stmt

def pos : Stmt -> Pos
  | constDecl pos _ => pos
  | varDecl pos _ _ => pos
  | funDecl pos _ => pos
  | block head _ => head.pos
  | ifThen pos _ _ _ => pos
  | whileDo pos _ _ _ => pos
  | ret pos _ => pos
  | assign pos _ _ => pos
  | call pos _ _ => pos
  | async pos _ _ _ => pos
  | await pos _ => pos

end Stmt

structure Block where
  head : BlockHead
  body : List Stmt
deriving Inhabited

end Scriptlet
