import Scriptlet.Folding.State

/-!
# Folding expressions

Folding finds the value of an expression where it can.  An operand that is known
becomes a literal, unless a call in it has to stay.  What is not known keeps the
literals that its operands became.
-/

namespace Scriptlet

structure Known where
  value : Value
  /-- Nothing is lost when a literal stands for the expression. -/
  elidable : Bool

structure FoldedExpr where
  tree : Expr
  known : Option Known

/-- The arguments of a call.  The values are there when all of them are known. -/
structure FoldedArgs where
  trees : List Expr
  values : Option (List Value)
  elidable : Bool

/-- A call that was run at compile time. -/
structure FoldedCall where
  value : Option Value
  elidable : Bool

namespace Fold

def replace (k : Known) (e : Expr) : Fold Expr := do
  if !k.elidable || e.literal?.isSome then
    return e
  else
    match e with
    | .call _ _ _ => count .addElided
    | _ => count .addFolded
    return .literal e.pos k.value

def settle (e : FoldedExpr) : Fold Expr :=
  match e.known with
  | some k => replace k e.tree
  | none => return e.tree

def isLeftToRun : OpError -> Bool
  | .divisionByZero => true
  | .overflow _ => true
  | _ => false

def operator (pos : Pos) (elidable : Bool) (result : Except OpError Value) :
    Fold (Option Known) :=
  match result with
  | .ok value => return some { value := value, elidable := elidable }
  | .error e => if isLeftToRun e then return none else fail (.invalidOperands e) pos

/-- A whole expression in its slot.  Outside of loops, calls that were not
followed may have changed any global. -/
def settleSlot (mode : FoldMode) (e : FoldedExpr) : Fold FoldedExpr := do
  match e.known with
  | some k => return { tree := ← replace k e.tree, known := some k }
  | none =>
      if !mode.constantOnly && e.tree.hasCall then
        forgetGlobals
      return e

/-!
# Calls
-/

def checkArguments (p : Program) (f : Function) (pos : Pos) :
    List Param -> List Value -> Fold Unit
  | param :: params, value :: values => do
      if param.type.accepts value.type then
        checkArguments p f pos params values
      else
        mismatch (.argument (p.variableAt param.var).name f.name) param.type value.type pos
  | _, _ => return ()

def callGlobals (mode : FoldMode) (p : Program) (known : Valuation) : Valuation :=
  if mode.constantOnly then .empty else known.keep (isGlobal p)

def forgetGlobalsIf (impure : Bool) : Fold Unit :=
  if impure then forgetGlobals else return ()

def runCall (mode : FoldMode) (pos : Pos) (f : FunId) (values : List Value)
    (elidable impure : Bool) : Fold (Option FoldedCall) := do
  let s ← get
  let function := s.program.function f
  checkArguments s.program function pos function.params values
  match evalCall s.program mode.quota (callGlobals mode s.program s.known) f values with
  | some (value, globals) =>
      if impure then
        modify fun s => { s with known := s.known.override globals }
      return some { value := value, elidable := !impure && elidable }
  | none =>
      forgetGlobalsIf impure
      return none

def callWith (mode : FoldMode) (pos : Pos) (f : FunId) (args : FoldedArgs) :
    Fold (Option FoldedCall) := do
  let p ← program
  if (p.function f).isNative || (mode.constantOnly && args.values.isNone) then
    return none
  else
    let inProgress := mode.folding.contains f
    let impure := inProgress || p.hasSideEffects f
    match args.values with
    | some values =>
        if inProgress || (impure && mode.constantOnly) then
          forgetGlobalsIf impure
          return none
        else
          runCall mode pos f values args.elidable impure
    | none =>
        forgetGlobalsIf impure
        return none

/-!
# Expressions
-/

/-- What is known of a call in an expression, which has to yield a value. -/
def FoldedCall.known? (call : FoldedCall) : Option Known :=
  call.value.map fun value => { value := value, elidable := call.elidable }

def FoldedArgs.cons (arg : FoldedExpr) (rest : FoldedArgs) : FoldedArgs :=
  { trees := arg.tree :: rest.trees
    values :=
      match arg.known, rest.values with
      | some k, some values => some (k.value :: values)
      | _, _ => none
    elidable :=
      match arg.known with
      | some k => k.elidable && rest.elidable
      | none => rest.elidable }

mutual

def expr (mode : FoldMode) : Expr -> Fold FoldedExpr
  | .literal pos value =>
      return { tree := .literal pos value, known := some { value := value, elidable := true } }
  | .const pos id => do
      let value := ((← program).constant id).value
      return { tree := .const pos id, known := some { value := value, elidable := true } }
  | .var pos id => do
      let s ← get
      let value := if mode.constantOnly then none else s.known.get? id
      return { tree := .var pos id, known := value.map fun v => { value := v, elidable := true } }
  | .unary pos op operand => do
      let x ← expr mode operand
      let tree := .unary pos op (← settle x)
      match x.known with
      | some k => return { tree := tree, known := ← operator pos k.elidable (op.apply k.value) }
      | none => return { tree := tree, known := none }
  | .binary pos op left right => do
      let l ← expr mode left
      let lTree ← settle l
      match l.known with
      | none => return { tree := .binary pos op lTree right, known := none }
      | some lk =>
          let r ← expr mode right
          let tree := .binary pos op lTree (← settle r)
          match r.known with
          | none => return { tree := tree, known := none }
          | some rk =>
              let result := op.apply lk.value rk.value
              return { tree := tree, known := ← operator pos (lk.elidable && rk.elidable) result }
  | .call pos f args => do
      let xs ← arguments mode args
      let call ← callWith mode pos f xs
      return { tree := .call pos f xs.trees, known := call.bind FoldedCall.known? }

def arguments (mode : FoldMode) : List Expr -> Fold FoldedArgs
  | [] => return { trees := [], values := some [], elidable := true }
  | arg :: rest => do
      let x ← settleSlot mode (← expr mode arg)
      if mode.constantOnly && x.known.isNone then
        return { trees := x.tree :: rest, values := none, elidable := true }
      else
        return FoldedArgs.cons x (← arguments mode rest)

end

def slot (mode : FoldMode) (e : Expr) : Fold FoldedExpr := do
  settleSlot mode (← expr mode e)

end Fold
end Scriptlet
