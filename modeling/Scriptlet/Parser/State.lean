import Scriptlet.Parser.Expression
import Scriptlet.Program.Building
import Scriptlet.Program.Extern

/-!
# The state of a parse

The parser reads tokens from the front of a list, binds names in a symbol table
and fills the tables of a program.  The first error ends it.
-/

namespace Scriptlet

structure ParseState where
  tokens : List Token
  symbols : SymbolTable
  program : Program
  /-- The functions around the current place, innermost first. -/
  owners : List FunId
  /-- Skipped tokens, the latest first. -/
  skipped : List ParseWarning

abbrev Parse (α : Type) := StateT ParseState (Except ParseError) α

namespace ParseState

def ofTokens (tokens : List Token) : ParseState :=
  { tokens := tokens, symbols := .empty, program := .empty, owners := [], skipped := [] }

def mapSymbols (f : SymbolTable -> SymbolTable) (s : ParseState) : ParseState :=
  { s with symbols := f s.symbols }

def mapProgram (f : Program -> Program) (s : ParseState) : ParseState :=
  { s with program := f s.program }

def names (s : ParseState) : Names :=
  { find := fun name => (s.symbols.resolve name).map (·.toBinding), program := s.program }

end ParseState

namespace Parse

def onTokens {α : Type} (p : TokenParse α) : Parse α := fun s =>
  match p s.tokens with
  | .ok (a, tokens) => .ok (a, { s with tokens := tokens })
  | .error e => .error e

instance : MonadLift TokenParse Parse where
  monadLift := onTokens

def withNames {α : Type} (p : Names -> TokenParse α) : Parse α := do
  onTokens (p (← get).names)

/-!
# Names
-/

/-- Declares a name in the current scope and enters what it stands for into its
table.  A name of the outermost scope is also listed among the globals. -/
def declare (category : Category) (name : String) (type : ValueType) (pos : Option Pos)
    (enter : Program -> Program) : Parse Nat := do
  let s ← get
  match s.symbols.declare? category name type with
  | none => fail (.duplicate name) pos
  | some (identifier, symbols) =>
      let program :=
        if s.symbols.current = 0 then s.program.addGlobal (.of category identifier.id) else s.program
      set { s with symbols := symbols, program := enter program }
      return identifier.id

def declareConst (name : String) (type : ValueType) (value : Value) (pos : Option Pos) :
    Parse ConstId :=
  declare .const name type pos (·.addConstant { name := name, type := type, value := value })

def declareVar (name : String) (type : ValueType) (default : Option Value) (pos : Option Pos) :
    Parse VarId := do
  let owner := (← get).owners.head?
  declare .var name type pos (·.addVar owner name type default)

def declareFunction (name : String) (result : ValueType) (body : Option Block)
    (pos : Option Pos) : Parse FunId :=
  declare .function name result pos (·.addFunction name result body)

def declareParams : List Parameter -> Parse (List Param)
  | [] => return []
  | p :: rest => do
      let var ← declareVar p.name p.type none p.pos
      let params ← declareParams rest
      return { var := var, type := p.type } :: params

def setParams (id : FunId) (params : List Param) : Parse Unit :=
  modify (.mapProgram (·.setParams id params))

def setBody (id : FunId) (body : Block) : Parse Unit :=
  modify (.mapProgram (·.setBody id body))

/-!
# Scopes
-/

def inScope {α : Type} (body : Nat -> Parse α) : Parse α := do
  let (scope, symbols) := (← get).symbols.enterBlock
  modify (.mapSymbols fun _ => symbols)
  let result ← body scope
  modify (.mapSymbols (·.exit))
  return result

def inFunction {α : Type} (id : FunId) (body : Nat -> Parse α) : Parse α :=
  inScope fun scope => do
    modify fun s => { s with owners := id :: s.owners }
    let result ← body scope
    modify fun s => { s with owners := s.owners.tail }
    return result

/-!
# Names from outside
-/

/-- The parameters of a function of the host; they have no place. -/
def givenParameters (params : List (String × ValueType)) : List Parameter :=
  params.map fun (name, type) => { name := name, type := type, pos := none }

def injectParams (id : FunId) (params : List (String × ValueType)) : Parse Unit := do
  let bound ← inFunction id fun _ => declareParams (givenParameters params)
  setParams id bound

/-- A type in which a constant or variable of the host cannot be. -/
def isValueless (type : ValueType) : Bool :=
  type == .none || type == .any

/-- Why a value may not be given for a name of the type. -/
def valueFault? (name : String) (type : ValueType) (value : Value) : Option ParseCause :=
  if value.type ≠ type then some (.typeMismatch name type value.type) else none

def externFault? {body : Type} : Extern body -> Option ParseCause
  | .const name type value =>
      if isValueless type then some (.invalidExternType name type) else valueFault? name type value
  | .var name type default =>
      if isValueless type then some (.invalidExternType name type)
      else default.bind (valueFault? name type)
  | .function name params result _ =>
      if result = .any then some (.invalidExternType name result)
      else
        ((params.getD []).find? (·.2 == .none)).map fun (param, type) =>
          .invalidExternType (name ++ "(" ++ param ++ ")") type

def declareExtern {body : Type} : Extern body -> Parse Unit
  | .const name type value => do
      let _ ← declareConst name type value none
  | .var name type default => do
      let _ ← declareVar name type default none
  | .function name params result _ => do
      let id ← declareFunction name result none none
      match params with
      | some params => injectParams id params
      | none => return ()

def inject {body : Type} (entry : Extern body) : Parse Unit :=
  match externFault? entry with
  | some cause => fail cause none
  | none => declareExtern entry

def injectAll {body : Type} : List (Extern body) -> Parse Unit
  | [] => return ()
  | entry :: rest => do
      inject entry
      injectAll rest

end Parse
end Scriptlet
