import Scriptlet.Folding.Expression

/-!
# Folding statements

A statement is kept with what its expressions became, or removed when nothing of
it is left to do.  Inside a loop it may also give up, which ends the fold of the
loop; the loop then stays as it was.
-/

namespace Scriptlet

inductive FoldedStmt where
  | keep (stmt : Stmt)
  | remove
  | giveUp

namespace Fold

def givesUp (mode : FoldMode) (e : FoldedExpr) : Bool :=
  mode.constantOnly && e.known.isNone

/-!
# Slots of statements
-/

def assign (id : VarId) (value : FoldedExpr) : Fold Unit := do
  match value.known with
  | none => forget id
  | some k =>
      let v := (← program).variableAt id
      if v.type = k.value.type then
        learn id k.value
      else
        mismatch (.assignment v.name) v.type k.value.type value.tree.pos

def checkReturn (mode : FoldMode) (value : FoldedExpr) : Fold Unit := do
  match value.known, mode.folding with
  | some k, f :: _ =>
      let function := (← program).function f
      if function.result ≠ k.value.type then
        mismatch (.returned function.name) function.result k.value.type value.tree.pos
  | _, _ => return ()

def asyncArguments (mode : FoldMode) : List Expr -> Fold (List Expr)
  | [] => return []
  | arg :: rest => do
      let x ← slot mode arg
      return x.tree :: (← asyncArguments mode rest)

def callStmt (mode : FoldMode) (pos : Pos) (f : FunId) (args : List Expr) : Fold FoldedStmt := do
  let xs ← arguments mode args
  match ← callWith mode pos f xs with
  | some call =>
      if call.elidable then
        count .addElided
        return .remove
      else
        return .keep (.call pos f xs.trees)
  | none => if mode.constantOnly then return .giveUp else return .keep (.call pos f xs.trees)

def asyncStmt (mode : FoldMode) (pos : Pos) (target : VarId) (f : FunId) (args : List Expr) :
    Fold FoldedStmt := do
  if mode.constantOnly then
    return .giveUp
  else
    let trees ← asyncArguments mode args
    forget target
    if !((← program).function f).isNative then
      forgetGlobals
    return .keep (.async pos target f trees)

def awaitStmt (mode : FoldMode) (pos : Pos) (target : VarId) : Fold FoldedStmt := do
  if mode.constantOnly then
    return .giveUp
  else
    forget target
    forgetGlobals
    return .keep (.await pos target)

def funDecl (enter : FunId -> Fold Unit) (pos : Pos) (f : FunId) : Fold FoldedStmt := do
  enter f
  match ((← program).function f).body with
  | some block =>
      if block.body.isEmpty then
        count .addRemoved
        return .remove
      else
        return .keep (.funDecl pos f)
  | none => return .keep (.funDecl pos f)

/-!
# Loops
-/

/-- What folding a copy of a loop came to. -/
inductive FoldedLoop where
  | folded (cond : Expr) (body : List Stmt)
  | neverEntered
  | gaveUp

def endLoop (mode : FoldMode) (before : FoldState) (pos : Pos) (cond : Expr) (head : BlockHead)
    (body : List Stmt) (result : FoldedLoop) : Fold FoldedStmt := do
  modify fun s => { s with known := before.known }
  let finish (cond : Expr) (body : List Stmt) : Fold FoldedStmt := do
    forgetAssigned (Assigned.byStmts body)
    if cond.hasCall then
      forgetGlobals
    return .keep (.whileDo pos cond head body)
  match result with
  | .folded newCond newBody => finish newCond newBody
  | .neverEntered =>
      count fun _ => before.stats
      finish cond body
  | .gaveUp =>
      if mode.constantOnly then
        return .giveUp
      else
        count fun _ => before.stats
        finish cond body

/-!
# Statements
-/

mutual

def stmt (mode : FoldMode) (enter : FunId -> Fold Unit) : Stmt -> Fold FoldedStmt
  | .constDecl pos id => return .keep (.constDecl pos id)
  | .varDecl pos id none => do
      forget id
      return .keep (.varDecl pos id none)
  | .varDecl pos id (some init) => do
      let x ← slot mode init
      if givesUp mode x then
        return .giveUp
      else
        assign id x
        return .keep (.varDecl pos id (some x.tree))
  | .assign pos id value => do
      let x ← slot mode value
      if givesUp mode x then
        return .giveUp
      else
        assign id x
        return .keep (.assign pos id x.tree)
  | .funDecl pos f => funDecl enter pos f
  | .block head body => do
      match ← stmts mode enter body with
      | none => return .giveUp
      | some [] =>
          count .addRemoved
          return .remove
      | some body => return .keep (.block head body)
  | .ifThen pos cond head body => do
      let c ← slot mode cond
      match c.known with
      | none =>
          if mode.constantOnly then
            return .giveUp
          else
            match ← stmts mode enter body with
            | none => return .giveUp
            | some body =>
                forgetAssigned (Assigned.byStmts body)
                return .keep (.ifThen pos c.tree head body)
      | some { value := .bool true, .. } =>
          match ← stmts mode enter body with
          | none => return .giveUp
          | some body => return .keep (.ifThen pos c.tree head body)
      | some { value := .bool false, .. } => return .keep (.ifThen pos c.tree head body)
      | some k => mismatch .ifCondition .bool k.value.type cond.pos
  | .whileDo pos cond head body => do
      let before ← get
      let inner := { mode with constantOnly := true }
      let c ← slot inner cond
      match c.known with
      | none => endLoop mode before pos cond head body .gaveUp
      | some { value := .bool false, .. } => endLoop mode before pos cond head body .neverEntered
      | some { value := .bool true, .. } =>
          match ← stmts inner enter body with
          | none => endLoop mode before pos cond head body .gaveUp
          | some newBody => endLoop mode before pos cond head body (.folded c.tree newBody)
      | some k => mismatch .whileCondition .bool k.value.type cond.pos
  | .ret pos value => do
      let x ← slot mode value
      if givesUp mode x then
        return .giveUp
      else
        checkReturn mode x
        return .keep (.ret pos x.tree)
  | .call pos f args => callStmt mode pos f args
  | .async pos target f args => asyncStmt mode pos target f args
  | .await pos target => awaitStmt mode pos target

/-- Folds statements in order; the answer is missing when one of them gave up. -/
def stmts (mode : FoldMode) (enter : FunId -> Fold Unit) : List Stmt -> Fold (Option (List Stmt))
  | [] => return some []
  | s :: rest => do
      match ← stmt mode enter s with
      | .giveUp => return none
      | .remove => stmts mode enter rest
      | .keep s =>
          match ← stmts mode enter rest with
          | none => return none
          | some rest => return some (s :: rest)

end

/-!
# Function bodies
-/

def withBody (p : Program) (f : FunId) (body : List Stmt) : Program :=
  match (p.function f).body with
  | some block =>
      p.setFunction f { p.function f with body := some { block with body := body } }
  | none => p

/-- Folds the body of a function with nothing known.  Until that is done the body
in the table is empty, so at most as many bodies are open as the program has
functions, and a depth of zero is met by empty bodies only. -/
def functionWithin (quota : Nat) : Nat -> List FunId -> FunId -> Fold Unit
  | 0, _, _ => return ()
  | depth + 1, folding, f => do
      let before ← get
      let body := before.program.bodyOf f
      set { before with program := withBody before.program f [], known := .empty }
      let mode := { quota := quota, constantOnly := false, folding := f :: folding }
      let result ← stmts mode (functionWithin quota depth (f :: folding)) body
      modify fun s =>
        { s with program := withBody s.program f (result.getD body), known := before.known }

def root (quota : Nat) (p : Program) : Fold (List Stmt) := do
  let mode := { quota := quota, constantOnly := false, folding := [] }
  let result ← stmts mode (functionWithin quota p.functions.length []) p.root
  return result.getD p.root

end Fold
end Scriptlet
