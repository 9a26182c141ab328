import Scriptlet.Program.Tree
import Scriptlet.Text.Outline

/-!
# Dumps of the tree

The outline of a statement with all of its parts and positions.
-/

namespace Scriptlet

open Text (Outline)

namespace Dump

def pos (p : Pos) : Outline :=
  .record "Pos" [("line", .number p.line), ("column", .number p.column)]

def constId (id : ConstId) : Outline :=
  .tuple "ConstId" [.number id]

def varId (id : VarId) : Outline :=
  .tuple "VarId" [.number id]

def funId (id : FunId) : Outline :=
  .tuple "FunId" [.number id]

def value : Value -> Outline
  | .bool b => .tuple "Bool" [.word (if b then "true" else "false")]
  | .int n => .tuple "Int" [.word (toString n.toInt)]
  | .float x => .tuple "Float" [.word (FloatText.general .general x)]

def unaryOp : UnaryOp -> String
  | .plus => "Plus"
  | .neg => "Neg"
  | .not => "Not"

def binaryOp : BinaryOp -> String
  | .equal => "Eq"
  | .notEqual => "NotEq"
  | .less => "Lt"
  | .greater => "Gt"
  | .lessEqual => "LtEq"
  | .greaterEqual => "GtEq"
  | .add => "Add"
  | .sub => "Sub"
  | .or => "Or"
  | .xor => "Xor"
  | .mul => "Mul"
  | .div => "Div"
  | .and => "And"
  | .pow => "Pow"

/-- A node of the tree: what it is and where it stands. -/
def node (name : String) (kind : Outline) (p : Pos) : Outline :=
  .record name [("kind", kind), ("pos", pos p)]

def call (callee : FunId) (args : List Outline) : Outline :=
  .record "Call" [("fun", funId callee), ("args", .list args)]

mutual

def expr : Expr -> Outline
  | .literal p v => node "Expr" (.tuple "ConstVal" [value v]) p
  | .const p id => node "Expr" (.tuple "ConstRef" [constId id]) p
  | .var p id => node "Expr" (.tuple "VarRef" [varId id]) p
  | .unary p op operand =>
      node "Expr" (.record "UnOp" [("op", .word (unaryOp op)), ("operand", expr operand)]) p
  | .binary p op left right =>
      node "Expr"
        (.record "BinOp"
          [("op", .word (binaryOp op)), ("left", expr left), ("right", expr right)]) p
  | .call p callee args => node "Expr" (.tuple "Call" [call callee (exprs args)]) p

def exprs : List Expr -> List Outline
  | [] => []
  | e :: rest => expr e :: exprs rest

end

def block (head : BlockHead) (body : List Outline) : Outline :=
  .record "Block"
    [("scope_index", .number head.scope), ("nodes", .list body), ("pos", pos head.pos)]

mutual

def stmt : Stmt -> Outline
  | .constDecl p id => node "Node" (.tuple "ConstDecl" [constId id]) p
  | .varDecl p id init =>
      node "Node" (.record "VarDecl" [("var", varId id), ("init", .optional expr init)]) p
  | .funDecl p id => node "Node" (.tuple "FunDecl" [funId id]) p
  | .block head body => node "Node" (.tuple "Block" [block head (stmts body)]) head.pos
  | .ifThen p cond head body =>
      node "Node" (.record "If" [("cond", expr cond), ("body", block head (stmts body))]) p
  | .whileDo p cond head body =>
      node "Node" (.record "While" [("cond", expr cond), ("body", block head (stmts body))]) p
  | .ret p e => node "Node" (.tuple "Return" [expr e]) p
  | .assign p target e =>
      node "Node" (.record "Assign" [("var", varId target), ("expr", expr e)]) p
  | .call p callee args => node "Node" (.tuple "CallStmt" [call callee (exprs args)]) p
  | .async p target callee args =>
      node "Node"
        (.record "Async" [("target", varId target), ("call", call callee (exprs args))]) p
  | .await p target => node "Node" (.tuple "Await" [varId target]) p

def stmts : List Stmt -> List Outline
  | [] => []
  | s :: rest => stmt s :: stmts rest

end

end Dump

def Stmt.dump (s : Stmt) : String :=
  (Dump.stmt s).render

end Scriptlet
