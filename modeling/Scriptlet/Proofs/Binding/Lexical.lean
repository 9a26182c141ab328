import Scriptlet.Parser
import Scriptlet.Proofs.Scope.Stack

/-!
# Reading a program by its block structure

A second reader of programs, in which scopes are no state.  What is read at a
place is told the declarations that are complete there, scope by scope, and the
statement answers with the name that it declares in the scope around it.  The
statements behind it see that name and nothing that was declared inside it, so
what a block or a function declares is gone behind its closing brace.

A name stands for its declaration in the innermost scope that has one.
-/

namespace Scriptlet

/-- What is declared where something stands in a program. -/
structure Place where
  /-- The complete declarations of the scope around the place. -/
  here : List Binding
  /-- Those of the scopes around that one, innermost scope first. -/
  around : List (List Binding)
  /-- The functions around the place, innermost first. -/
  owners : List FunId

namespace Place

def outermost : Place :=
  { here := [], around := [], owners := [] }

def scopes (place : Place) : List (List Binding) :=
  place.here :: place.around

def find (place : Place) (name : String) : Option Binding :=
  innermost place.scopes name

def names (place : Place) (program : Program) : Names :=
  { find := place.find, program := program }

def isDeclaredHere (place : Place) (name : String) : Bool :=
  place.here.any (·.name == name)

def behind (place : Place) (b : Binding) : Place :=
  { place with here := place.here ++ [b] }

def after (place : Place) : Option Binding -> Place
  | some b => place.behind b
  | none => place

def inBlock (place : Place) : Place :=
  { place with here := [], around := place.scopes }

def inFunction (place : Place) (f : FunId) : Place :=
  { place.inBlock with owners := f :: place.owners }

end Place

structure LexicalState where
  tokens : List Token
  program : Program
  /-- The number of the next scope. -/
  nextScope : Nat
  /-- Skipped tokens, the latest first. -/
  skipped : List ParseWarning

abbrev Lexical (α : Type) := StateT LexicalState (Except ParseError) α

namespace Lexical

open Parse (fail)

def onTokens {α : Type} (p : TokenParse α) : Lexical α := fun s =>
  match p s.tokens with
  | .ok (a, tokens) => .ok (a, { s with tokens := tokens })
  | .error e => .error e

instance : MonadLift TokenParse Lexical where
  monadLift := onTokens

def withNames {α : Type} (place : Place) (p : Names -> TokenParse α) : Lexical α := do
  onTokens (p (place.names (← get).program))

def freshScope : Lexical Nat := do
  let s ← get
  set { s with nextScope := s.nextScope + 1 }
  return s.nextScope

def changeProgram (f : Program -> Program) : Lexical Unit :=
  modify fun s => { s with program := f s.program }

/-!
# Declarations
-/

/-- Completes a declaration: the name stands for the next entry of its table, which
is entered.  A scope has a name once. -/
def declare (place : Place) (category : Category) (name : String) (type : ValueType)
    (pos : Option Pos) (enter : Program -> Program) : Lexical Binding := do
  if place.isDeclaredHere name then
    fail (.duplicate name) pos
  else
    let p := (← get).program
    let b : Binding := { category := category, name := name, id := p.entries category, type := type }
    let isGlobal := place.around.isEmpty
    changeProgram fun p => enter (if isGlobal then p.addGlobal (.of category b.id) else p)
    return b

def declareConst (place : Place) (name : String) (type : ValueType) (value : Value)
    (pos : Option Pos) : Lexical Binding :=
  declare place .const name type pos (·.addConstant { name := name, type := type, value := value })

def declareVar (place : Place) (name : String) (type : ValueType) (default : Option Value)
    (pos : Option Pos) : Lexical Binding :=
  declare place .var name type pos (·.addVar place.owners.head? name type default)

def declareFunction (place : Place) (name : String) (result : ValueType) (body : Option Block)
    (pos : Option Pos) : Lexical Binding :=
  declare place .function name result pos (·.addFunction name result body)

def declareParams : List Parse.Parameter -> Place -> Lexical (List Param × Place)
  | [], place => return ([], place)
  | p :: rest, place => do
      let b ← declareVar place p.name p.type none p.pos
      let (params, place) ← declareParams rest (place.behind b)
      return ({ var := b.id, type := p.type } :: params, place)

/-!
# Statements

A statement answers with its tree and with what it declares in the scope around it.
-/

def constDecl (place : Place) : Lexical (Stmt × Option Binding) := do
  let word ← Parse.expect .constWord
  let name ← Parse.expect .name
  let _ ← Parse.expect .colon
  let type ← Parse.expectType
  let _ ← Parse.expect .equal
  let value ← withNames place (Parse.constInitializer · name.text type)
  let b ← declareConst place name.text type value (some name.pos)
  return (.constDecl word.pos b.id, some b)

def varDecl (place : Place) : Lexical (Stmt × Option Binding) := do
  let word ← Parse.expect .varWord
  let name ← Parse.expect .name
  let _ ← Parse.expect .colon
  let type ← Parse.expectType
  let init ←
    if ← Parse.accept .equal then some <$> withNames place Parse.expression else pure none
  let b ← declareVar place name.text type none (some name.pos)
  return (.varDecl word.pos b.id init, some b)

/-- The call stands before the declaration of its target and does not see it. -/
def asyncStmt (place : Place) : Lexical (Stmt × Option Binding) := do
  let word ← Parse.expect .asyncWord
  let name ← Parse.expect .name
  if ← Parse.accept .colon then
    let type ← Parse.expectType
    let _ ← Parse.expect .equal
    let (callee, args) ← withNames place (Parse.asyncCall · name.text type)
    let b ← declareVar place name.text type none (some name.pos)
    return (.async word.pos b.id callee args, some b)
  else
    let _ ← Parse.expect .assign
    let target ← withNames place (Parse.lookupVar · name.text name.pos)
    let type := ((← get).program.variableAt target).type
    let (callee, args) ← withNames place (Parse.asyncCall · name.text type)
    return (.async word.pos target callee args, none)

def plain (p : Lexical Stmt) : Lexical (Stmt × Option Binding) := do
  return (← p, none)

section Nested

variable (inner : Place -> Lexical (Stmt × Option Binding))

def blockRestWithin : Nat -> Place -> Lexical (List Stmt)
  | 0, _ => Parse.failExpected (.token .closeBrace)
  | limit + 1, place => do
      if ← Parse.accept .closeBrace then
        return []
      else if (← Parse.currentKind) = .endOfInput then
        Parse.failExpected (.token .closeBrace)
      else
        let (stmt, declared) ← inner place
        return stmt :: (← blockRestWithin limit (place.after declared))

def blockRest (place : Place) : Lexical (List Stmt) := do
  blockRestWithin inner (← Parse.tokensLeft) place

def block (place : Place) : Lexical Block := do
  let brace ← Parse.expect .openBrace
  let scope ← freshScope
  return { head := { scope := scope, pos := brace.pos }, body := ← blockRest inner place.inBlock }

def functionBody (place : Place) (f : FunId) (params : List Parse.Parameter) : Lexical Block := do
  let scope ← freshScope
  let (bound, place) ← declareParams params (place.inFunction f)
  changeProgram (·.setParams f bound)
  let brace ← Parse.expect .openBrace
  return { head := { scope := scope, pos := brace.pos }, body := ← blockRest inner place }

def funDecl (place : Place) : Lexical (Stmt × Option Binding) := do
  let word ← Parse.expect .funWord
  let name ← Parse.expect .name
  let params ← Parse.parameters
  let result ← if ← Parse.accept .colon then Parse.expectType else pure .none
  let b ← declareFunction place name.text result (some (Parse.pendingBody word.pos))
    (some name.pos)
  let body ← functionBody inner (place.behind b) b.id params
  changeProgram (·.setBody b.id body)
  return (.funDecl word.pos b.id, some b)

def ifStmt (place : Place) : Lexical Stmt := do
  let word ← Parse.advance
  let cond ← withNames place Parse.expression
  let body ← block inner place
  return .ifThen word.pos cond body.head body.body

def whileStmt (place : Place) : Lexical Stmt := do
  let word ← Parse.advance
  let cond ← withNames place Parse.expression
  let body ← block inner place
  return .whileDo word.pos cond body.head body.body

def blockStmt (place : Place) : Lexical Stmt := do
  let body ← block inner place
  return .block body.head body.body

def statementOf (place : Place) : Lexical (Stmt × Option Binding) := do
  match ← Parse.currentKind with
  | .constWord => constDecl place
  | .varWord => varDecl place
  | .funWord => funDecl inner place
  | .openBrace => plain (blockStmt inner place)
  | .ifWord => plain (ifStmt inner place)
  | .whileWord => plain (whileStmt inner place)
  | .returnWord => plain (withNames place Parse.returnStmt)
  | .asyncWord => asyncStmt place
  | .awaitWord => plain (withNames place Parse.awaitStmt)
  | .name => plain (withNames place Parse.nameStmt)
  | _ => Parse.failExpected .statement

end Nested

def statementWithin : Nat -> Place -> Lexical (Stmt × Option Binding)
  | 0, _ => Parse.failExpected .statement
  | depth + 1, place => statementOf (statementWithin depth) place

def statement (place : Place) : Lexical (Stmt × Option Binding) := do
  statementWithin (← Parse.tokensLeft) place

/-!
# Programs
-/

def topLevelWithin : Nat -> Place -> Lexical (List Stmt)
  | 0, _ => return []
  | limit + 1, place => do
      let token ← Parse.current
      if token.isEnd then
        return []
      else if Parse.startsTopLevel token.kind then
        let (stmt, declared) ← statement place
        return stmt :: (← topLevelWithin limit (place.after declared))
      else
        let _ ← Parse.advance
        modify fun s => { s with skipped := { pos := token.pos, text := token.text } :: s.skipped }
        topLevelWithin limit place

variable {body : Type}

def givenParams (place : Place) (f : FunId) (params : List (String × ValueType)) :
    Lexical (List Param) := do
  let _ ← freshScope
  let (bound, _) ← declareParams (Parse.givenParameters params) (place.inFunction f)
  return bound

def injectParams (place : Place) (f : FunId) (params : List (String × ValueType)) :
    Lexical Unit := do
  let bound ← givenParams place f params
  changeProgram (·.setParams f bound)

def declareExtern (place : Place) : Extern body -> Lexical Binding
  | .const name type value => declareConst place name type value none
  | .var name type default => declareVar place name type default none
  | .function name params result _ => do
      let b ← declareFunction place name result none none
      match params with
      | some params => injectParams (place.behind b) b.id params
      | none => pure ()
      return b

def inject (place : Place) (entry : Extern body) : Lexical Binding :=
  match Parse.externFault? entry with
  | some cause => fail cause none
  | none => declareExtern place entry

def injectAll : List (Extern body) -> Place -> Lexical Place
  | [], place => return place
  | entry :: rest, place => do
      let b ← inject place entry
      injectAll rest (place.behind b)

def wholeProgram (externs : List (Extern body)) : Lexical (List Stmt) := do
  let place ← injectAll externs .outermost
  topLevelWithin (← Parse.tokensLeft) place

def start (tokens : List Token) : LexicalState :=
  { tokens := tokens, program := .empty, nextScope := 1, skipped := [] }

end Lexical

def parseLexically {body : Type} (externs : List (Extern body)) (tokens : List Token) :
    Except ParseError Parsed :=
  match (Lexical.wholeProgram externs).run (Lexical.start tokens) with
  | .ok (root, s) =>
      .ok { program := { s.program with root := root }, warnings := s.skipped.reverse }
  | .error e => .error e

end Scriptlet
