import Scriptlet.Program.Tree

/-!
# Programs

A program is its list of statements beside the tables that the statements index.
The tables hold declarations only and never a value of a run.
-/

namespace Scriptlet

structure Constant where
  name : String
  type : ValueType
  value : Value
deriving DecidableEq, Inhabited

/-- A variable.  One without an owner has a slot among the globals; any other has
a slot in every frame of the function that owns it. -/
structure Variable where
  name : String
  type : ValueType
  owner : Option FunId
  slot : Nat
  default : Option Value
deriving DecidableEq, Inhabited

structure Param where
  var : VarId
  type : ValueType
deriving DecidableEq, Repr, Inhabited

/-- A function.  One without a body is native: the host provides it. -/
structure Function where
  name : String
  params : List Param
  result : ValueType
  body : Option Block
  localCount : Nat
deriving Inhabited

namespace Function

def isNative (f : Function) : Bool :=
  f.body.isNone

def entryPos (f : Function) : Pos :=
  match f.body with
  | some block => block.head.pos
  | none => .endOfInput

end Function

/-- A name of the outermost scope. -/
inductive Global where
  | const (id : ConstId)
  | var (id : VarId)
  | function (id : FunId)
deriving DecidableEq, Repr

namespace Global

def const? : Global -> Option ConstId
  | const id => some id
  | _ => none

def var? : Global -> Option VarId
  | var id => some id
  | _ => none

def function? : Global -> Option FunId
  | function id => some id
  | _ => none

end Global

structure Program where
  root : List Stmt
  constants : List Constant
  vars : List Variable
  functions : List Function
  globalCount : Nat
  globals : List Global
deriving Inhabited

namespace Program

def empty : Program :=
  { root := [], constants := [], vars := [], functions := [], globalCount := 0, globals := [] }

def constant (p : Program) (id : ConstId) : Constant :=
  p.constants.getD id default

def variableAt (p : Program) (id : VarId) : Variable :=
  p.vars.getD id default

def function (p : Program) (id : FunId) : Function :=
  p.functions.getD id default

def setFunction (p : Program) (id : FunId) (f : Function) : Program :=
  { p with functions := p.functions.set id f }

def bodyOf (p : Program) (id : FunId) : List Stmt :=
  match (p.function id).body with
  | some block => block.body
  | none => []

/-!
# Names of the outermost scope
-/

def globalName (p : Program) : Global -> String
  | .const id => (p.constant id).name
  | .var id => (p.variableAt id).name
  | .function f => (p.function f).name

def findGlobal? {α : Type} (p : Program) (name : String) (kind? : Global -> Option α) : Option α :=
  p.globals.findSome? fun g => if p.globalName g = name then kind? g else none

def globalFunction? (p : Program) (name : String) : Option FunId :=
  p.findGlobal? name Global.function?

def globalVariable? (p : Program) (name : String) : Option VarId :=
  p.findGlobal? name Global.var?

def globalConstant? (p : Program) (name : String) : Option ConstId :=
  p.findGlobal? name Global.const?

end Program
end Scriptlet
