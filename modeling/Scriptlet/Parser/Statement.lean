import Scriptlet.Parser.State

/-!
# Declarations and statements

A name is bound where it is met: an initializer does not see the variable that
it initializes, and a function sees itself.  The parameters of a function share
one scope with its body.
-/

namespace Scriptlet
namespace Parse

/-!
# Constants, variables and targets of tasks
-/

def constDecl : Parse Stmt := do
  let word ← expect .constWord
  let name ← expect .name
  let _ ← expect .colon
  let type ← expectType
  let _ ← expect .equal
  let value ← withNames (constInitializer · name.text type)
  let id ← declareConst name.text type value (some name.pos)
  return .constDecl word.pos id

def varDecl : Parse Stmt := do
  let word ← expect .varWord
  let name ← expect .name
  let _ ← expect .colon
  let type ← expectType
  let init ← if ← accept .equal then some <$> withNames expression else pure none
  let id ← declareVar name.text type none (some name.pos)
  return .varDecl word.pos id init

def asyncStmt : Parse Stmt := do
  let word ← expect .asyncWord
  let name ← expect .name
  if ← accept .colon then
    let type ← expectType
    let _ ← expect .equal
    let (callee, args) ← withNames (asyncCall · name.text type)
    let target ← declareVar name.text type none (some name.pos)
    return .async word.pos target callee args
  else
    let _ ← expect .assign
    let target ← withNames (lookupVar · name.text name.pos)
    let type := ((← get).program.variableAt target).type
    let (callee, args) ← withNames (asyncCall · name.text type)
    return .async word.pos target callee args

/-!
# Blocks

What a block holds is parsed by the parameter `inner`.
-/

def blockRestWithin (inner : Parse Stmt) : Nat -> Parse (List Stmt)
  | 0 => failExpected (.token .closeBrace)
  | limit + 1 => do
      if ← accept .closeBrace then
        return []
      else if (← currentKind) = .endOfInput then
        failExpected (.token .closeBrace)
      else
        let stmt ← inner
        return stmt :: (← blockRestWithin inner limit)

def blockRest (inner : Parse Stmt) : Parse (List Stmt) := do
  blockRestWithin inner (← tokensLeft)

def block (inner : Parse Stmt) : Parse Block := do
  let brace ← expect .openBrace
  inScope fun scope => do
    return { head := { scope := scope, pos := brace.pos }, body := ← blockRest inner }

/-!
# Functions
-/

/-- The body that stands in the table until the real one is parsed. -/
def pendingBody (pos : Pos) : Block :=
  { head := { scope := 0, pos := pos }, body := [] }

def functionBody (inner : Parse Stmt) (id : FunId) (params : List Parameter) : Parse Block :=
  inFunction id fun scope => do
    let bound ← declareParams params
    setParams id bound
    let brace ← expect .openBrace
    return { head := { scope := scope, pos := brace.pos }, body := ← blockRest inner }

def funDecl (inner : Parse Stmt) : Parse Stmt := do
  let word ← expect .funWord
  let name ← expect .name
  let params ← parameters
  let result ← if ← accept .colon then expectType else pure .none
  let id ← declareFunction name.text result (some (pendingBody word.pos)) (some name.pos)
  let body ← functionBody inner id params
  setBody id body
  return .funDecl word.pos id

/-!
# Statements
-/

def ifStmt (inner : Parse Stmt) : Parse Stmt := do
  let word ← advance
  let cond ← withNames expression
  let body ← block inner
  return .ifThen word.pos cond body.head body.body

def whileStmt (inner : Parse Stmt) : Parse Stmt := do
  let word ← advance
  let cond ← withNames expression
  let body ← block inner
  return .whileDo word.pos cond body.head body.body

def blockStmt (inner : Parse Stmt) : Parse Stmt := do
  let body ← block inner
  return .block body.head body.body

def statementOf (inner : Parse Stmt) : Parse Stmt := do
  match ← currentKind with
  | .constWord => constDecl
  | .varWord => varDecl
  | .funWord => funDecl inner
  | .openBrace => blockStmt inner
  | .ifWord => ifStmt inner
  | .whileWord => whileStmt inner
  | .returnWord => withNames returnStmt
  | .asyncWord => asyncStmt
  | .awaitWord => withNames awaitStmt
  | .name => withNames nameStmt
  | _ => failExpected .statement

def statementWithin : Nat -> Parse Stmt
  | 0 => failExpected .statement
  | depth + 1 => statementOf (statementWithin depth)

def statement : Parse Stmt := do
  statementWithin (← tokensLeft)

end Parse
end Scriptlet
