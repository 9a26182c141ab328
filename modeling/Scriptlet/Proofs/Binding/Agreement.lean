import Scriptlet.Proofs.Binding.Lexical

/-!
# The parser reads block structure

The parser keeps its scopes in one symbol table, and the lexical reader is handed
the declarations of each place.  Wherever the two stand at the same place, they
read the same: the same tree with the same tables, or the same error.
-/

namespace Scriptlet

/-- Both readers end with answers that belong together, or both with one error. -/
inductive Agree {α β : Type} (post : α -> β -> ParseState -> LexicalState -> Prop) :
    Except ParseError (α × ParseState) -> Except ParseError (β × LexicalState) -> Prop where
  | done {a : α} {b : β} {s : ParseState} {t : LexicalState} :
      post a b s t -> Agree post (.ok (a, s)) (.ok (b, t))
  | failed (e : ParseError) : Agree post (.error e) (.error e)

structure StandsAt (place : Place) (s : ParseState) (t : LexicalState) : Prop where
  valid : s.symbols.Valid
  scopes : s.symbols.scopes = place.scopes
  nextId : forall c, s.symbols.nextId c = s.program.entries c
  owners : s.owners = place.owners
  tokens : s.tokens = t.tokens
  program : s.program = t.program
  nextScope : s.symbols.nextScope = t.nextScope
  skipped : s.skipped = t.skipped

def SameAt {α : Type} (place : Place) (a b : α) (s : ParseState) (t : LexicalState) : Prop :=
  a = b ∧ StandsAt place s t

def SameDeclared (place : Place) (id : Nat) (b : Binding) (s : ParseState) (t : LexicalState) : Prop :=
  id = b.id ∧ StandsAt (place.behind b) s t

def SameStmt (place : Place) (stmt : Stmt) (answer : Stmt × Option Binding) (s : ParseState)
    (t : LexicalState) : Prop :=
  stmt = answer.1 ∧ StandsAt (place.after answer.2) s t

structure Place.Inside (inside start : Place) : Prop where
  around : inside.around = start.around
  owners : inside.owners = start.owners

theorem Place.Inside.refl (place : Place) : place.Inside place :=
  ⟨rfl, rfl⟩

theorem Place.Inside.trans {a b c : Place} (hab : a.Inside b) (hbc : b.Inside c) : a.Inside c :=
  ⟨hab.around.trans hbc.around, hab.owners.trans hbc.owners⟩

theorem Place.inside_after (place : Place) (declared : Option Binding) :
    (place.after declared).Inside place := by
  cases declared <;> exact ⟨rfl, rfl⟩

def SameInside {α : Type} (start : Place) (a b : α) (s : ParseState) (t : LexicalState) : Prop :=
  a = b ∧ exists inside : Place, inside.Inside start ∧ StandsAt inside s t

def ParamsDeclared (start : Place) (params : List Param) (answer : List Param × Place)
    (s : ParseState) (t : LexicalState) : Prop :=
  params = answer.1 ∧ answer.2.Inside start ∧ StandsAt answer.2 s t

namespace Agree

variable {α β γ δ : Type} {post : α -> β -> ParseState -> LexicalState -> Prop}
  {post' : γ -> δ -> ParseState -> LexicalState -> Prop}

theorem mono {post'' : α -> β -> ParseState -> LexicalState -> Prop}
    {x : Except ParseError (α × ParseState)} {y : Except ParseError (β × LexicalState)}
    (h : Agree post x y) (himp : forall a b s t, post a b s t -> post'' a b s t) :
    Agree post'' x y := by
  cases h with
  | done hpost => exact .done (himp _ _ _ _ hpost)
  | failed e => exact .failed e

theorem bind {x : Parse α} {y : Lexical β} {f : α -> Parse γ} {g : β -> Lexical δ}
    {s : ParseState} {t : LexicalState} (h : Agree post (x s) (y t))
    (hnext : forall a b s' t', post a b s' t' -> Agree post' (f a s') (g b t')) :
    Agree post' ((x >>= f) s) ((y >>= g) t) := by
  change Agree post' (x s >>= fun answer => f answer.1 answer.2)
    (y t >>= fun answer => g answer.1 answer.2)
  generalize x s = r at h
  generalize y t = r' at h
  cases h with
  | done hpost => exact hnext _ _ _ _ hpost
  | failed e => exact .failed e

theorem map {x : Parse α} {y : Lexical β} {f : α -> γ} {g : β -> δ}
    {s : ParseState} {t : LexicalState} (h : Agree post (x s) (y t))
    (hnext : forall a b s' t', post a b s' t' -> post' (f a) (g b) s' t') :
    Agree post' ((f <$> x) s) ((g <$> y) t) := by
  rw [map_eq_pure_bind, map_eq_pure_bind]
  exact h.bind fun a b s' t' hpost => .done (hnext a b s' t' hpost)

theorem andThen {x : Parse α} {f : α -> Parse γ} {s : ParseState}
    {r : Except ParseError (β × LexicalState)}
    {post' : γ -> β -> ParseState -> LexicalState -> Prop} (h : Agree post (x s) r)
    (hnext : forall a b s' t', post a b s' t' -> Agree post' (f a s') (.ok (b, t'))) :
    Agree post' ((x >>= f) s) r := by
  change Agree post' (x s >>= fun answer => f answer.1 answer.2) r
  generalize x s = r' at h
  cases h with
  | done hpost => exact hnext _ _ _ _ hpost
  | failed e => exact .failed e

theorem ite {c : Prop} [Decidable c] {x x' : Parse α} {y y' : Lexical β} {s : ParseState}
    {t : LexicalState} (hthen : c -> Agree post (x s) (y t))
    (helse : ¬c -> Agree post (x' s) (y' t)) :
    Agree post ((if c then x else x') s) ((if c then y else y') t) := by
  by_cases hc : c
  · rw [if_pos hc, if_pos hc]
    exact hthen hc
  · rw [if_neg hc, if_neg hc]
    exact helse hc

end Agree

section Readers

variable {α : Type} {place : Place} {s : ParseState} {t : LexicalState}

theorem StandsAt.withTokens (h : StandsAt place s t) (tokens : List Token) :
    StandsAt place { s with tokens := tokens } { t with tokens := tokens } :=
  { h with tokens := rfl }

theorem agree_onTokens (p : TokenParse α) (h : StandsAt place s t) :
    Agree (SameAt place) ((liftM p : Parse α) s) ((liftM p : Lexical α) t) := by
  change Agree (SameAt place) (Parse.onTokens p s) (Lexical.onTokens p t)
  unfold Parse.onTokens Lexical.onTokens
  rw [h.tokens]
  cases hp : p t.tokens with
  | error e => exact .failed e
  | ok answer => exact .done ⟨rfl, h.withTokens answer.2⟩

theorem StandsAt.names (h : StandsAt place s t) :
    s.names = place.names t.program := by
  have hfind : (fun name => (s.symbols.resolve name).map (·.toBinding)) = place.find := by
    funext name
    rw [h.valid.resolve_eq name, h.scopes]
    rfl
  rw [ParseState.names, hfind, h.program, Place.names]

theorem agree_withNames (p : Names -> TokenParse α) (h : StandsAt place s t) :
    Agree (SameAt place) (Parse.withNames p s) (Lexical.withNames place p t) := by
  change Agree (SameAt place) (Parse.onTokens (p s.names) s)
    (Lexical.onTokens (p (place.names t.program)) t)
  rw [← h.names]
  exact agree_onTokens (p s.names) h

theorem agree_fail (cause : ParseCause) (pos : Option Pos) {β : Type}
    {post : α -> β -> ParseState -> LexicalState -> Prop} :
    Agree post ((Parse.fail cause pos : Parse α) s) ((Parse.fail cause pos : Lexical β) t) :=
  .failed _

theorem agree_failExpected (expected : Expectation) {β : Type}
    {post : α -> β -> ParseState -> LexicalState -> Prop} (h : StandsAt place s t) :
    Agree post ((liftM (Parse.failExpected expected : TokenParse α) : Parse α) s)
      ((liftM (Parse.failExpected expected : TokenParse β) : Lexical β) t) := by
  change Agree post (Parse.onTokens (Parse.failExpected expected) s)
    (Lexical.onTokens (Parse.failExpected expected) t)
  unfold Parse.onTokens Lexical.onTokens
  rw [h.tokens]
  exact .failed _

/-!
# Declarations
-/

theorem agree_changeProgram {f : Program -> Program} (h : StandsAt place s t)
    (hentries : forall c, (f s.program).entries c = s.program.entries c) :
    Agree (SameAt place) ((modify (ParseState.mapProgram f) : Parse Unit) s)
      (Lexical.changeProgram f t) := by
  refine .done ⟨rfl, { h with nextId := ?_, program := ?_ }⟩
  · intro c
    exact (h.nextId c).trans (hentries c).symm
  · exact congrArg f h.program

theorem get_bind_apply {σ ε β : Type} (f : σ -> StateT σ (Except ε) β) (s : σ) :
    ((get : StateT σ (Except ε) σ) >>= f) s = f s s :=
  rfl

theorem agree_declare {category : Category} (name : String) (type : ValueType)
    (pos : Option Pos) {enter : Program -> Program} (h : StandsAt place s t)
    (henter : forall p c,
      (enter p).entries c = p.entries c + if category = c then 1 else 0) :
    Agree (SameDeclared place) (Parse.declare category name type pos enter s)
      (Lexical.declare place category name type pos enter t) := by
  have hhere : s.symbols.declaredIn s.symbols.current = place.here :=
    (List.cons.inj h.scopes).1
  have haround : s.symbols.enclosing.map s.symbols.declaredIn = place.around :=
    (List.cons.inj h.scopes).2
  have hdeclared : s.symbols.isDeclaredHere name = place.isDeclaredHere name := by
    rw [SymbolTable.isDeclaredHere_eq, hhere, Place.isDeclaredHere]
  have houter : s.symbols.current = 0 <-> place.around.isEmpty = true := by
    rw [h.valid.current_eq_zero, List.isEmpty_iff, ← haround, List.map_eq_nil_iff]
  rw [Parse.declare, get_bind_apply, SymbolTable.declare?_eq, hdeclared]
  cases hname : place.isDeclaredHere name with
  | true =>
      rw [Lexical.declare, if_pos hname]
      exact .failed _
  | false =>
      rw [Lexical.declare, hname]
      have hpush : (s.symbols.push category name type).Valid :=
        h.valid.push (hdeclared.trans hname)
      have hscopes := h.valid.scopes_push category name type
      have hid : s.symbols.nextId category = t.program.entries category := by
        rw [h.nextId, h.program]
      have hlisted :
          (if s.symbols.current = 0 then s.program.addGlobal (.of category (s.symbols.nextId category))
            else s.program) =
          if place.around.isEmpty then
            t.program.addGlobal (.of category (t.program.entries category))
          else t.program := by
        simp only [houter, hid, h.program]
      refine .done ⟨hid, ?_⟩
      constructor
      · exact hpush
      · show (s.symbols.push category name type).scopes = _
        rw [hscopes, hhere, haround, hid]
        rfl
      · intro c
        show (s.symbols.push category name type).nextId c = Program.entries (enter _) c
        rw [SymbolTable.nextId_push, h.nextId, henter]
        by_cases hzero : s.symbols.current = 0
        · rw [if_pos hzero]
          rfl
        · rw [if_neg hzero]
      · exact h.owners
      · exact h.tokens
      · exact congrArg enter hlisted
      · exact h.nextScope
      · exact h.skipped

theorem agree_declareConst (name : String) (type : ValueType) (value : Value)
    (pos : Option Pos) (h : StandsAt place s t) :
    Agree (SameDeclared place) (Parse.declareConst name type value pos s)
      (Lexical.declareConst place name type value pos t) :=
  agree_declare name type pos h fun p => p.entries_addConstant _

theorem agree_declareVar (name : String) (type : ValueType) (default : Option Value)
    (pos : Option Pos) (h : StandsAt place s t) :
    Agree (SameDeclared place) (Parse.declareVar name type default pos s)
      (Lexical.declareVar place name type default pos t) := by
  rw [Lexical.declareVar, ← h.owners]
  exact agree_declare name type pos h fun p => p.entries_addVar s.owners.head? name type default

theorem agree_declareFunction (name : String) (result : ValueType) (body : Option Block)
    (pos : Option Pos) (h : StandsAt place s t) :
    Agree (SameDeclared place) (Parse.declareFunction name result body pos s)
      (Lexical.declareFunction place name result body pos t) :=
  agree_declare name result pos h fun p => p.entries_addFunction name result body

theorem agree_declareParams (params : List Parse.Parameter) (h : StandsAt place s t) :
    Agree (ParamsDeclared place) (Parse.declareParams params s)
      (Lexical.declareParams params place t) := by
  induction params generalizing place s t with
  | nil => exact .done ⟨rfl, .refl place, h⟩
  | cons p rest ih =>
      rw [Parse.declareParams, Lexical.declareParams]
      apply (agree_declareVar p.name p.type none p.pos h).bind
      rintro id b s t ⟨rfl, h⟩
      apply (ih h).bind
      rintro params answer s t ⟨rfl, hinside, h⟩
      exact .done ⟨rfl, hinside.trans (place.inside_after (some b)), h⟩

/-!
# Scopes
-/

theorem StandsAt.inBlock (h : StandsAt place s t) :
    StandsAt place.inBlock (s.mapSymbols fun _ => s.symbols.entered)
      { t with nextScope := t.nextScope + 1 } where
  valid := h.valid.entered
  scopes := by
    have hscopes := h.valid.scopes_entered
    rw [h.scopes] at hscopes
    exact hscopes
  nextId := h.nextId
  owners := h.owners
  tokens := h.tokens
  program := h.program
  nextScope := congrArg (· + 1) h.nextScope
  skipped := h.skipped

theorem StandsAt.exit {inside : Place} (h : StandsAt inside s t)
    (hinside : inside.Inside place.inBlock) : StandsAt place (s.mapSymbols (·.exit)) t where
  valid := h.valid.exit
  scopes := by
    have hscopes : s.symbols.scopes = inside.here :: place.scopes := by
      rw [h.scopes, Place.scopes, hinside.around]
      rfl
    exact SymbolTable.scopes_exit hscopes (List.cons_ne_nil _ _)
  nextId := fun c => (SymbolTable.nextId_exit s.symbols c).trans (h.nextId c)
  owners := h.owners.trans hinside.owners
  tokens := h.tokens
  program := h.program
  nextScope := (SymbolTable.nextScope_exit s.symbols).trans h.nextScope
  skipped := h.skipped

theorem StandsAt.enterFunction (h : StandsAt place s t) (f : FunId) :
    StandsAt { place with owners := f :: place.owners } { s with owners := f :: s.owners } t :=
  { h with owners := congrArg (f :: ·) h.owners }

theorem StandsAt.exitFunction {f : FunId} {owners : List FunId} (h : StandsAt place s t)
    (howners : place.owners = f :: owners) :
    StandsAt { place with owners := owners } { s with owners := s.owners.tail } t :=
  { h with owners := by rw [h.owners, howners]; rfl }

theorem agree_inScope {body : Nat -> Parse α} {body' : Nat -> Lexical α} (h : StandsAt place s t)
    (hbody : forall scope s t, StandsAt place.inBlock s t ->
      Agree (SameInside place.inBlock) (body scope s) (body' scope t)) :
    Agree (SameAt place) (Parse.inScope body s) ((Lexical.freshScope >>= body') t) := by
  have hscope : s.symbols.nextScope = t.nextScope := h.nextScope
  change Agree (SameAt place)
    ((do
      let result ← body s.symbols.nextScope
      modify (.mapSymbols (·.exit))
      return result : Parse α) (s.mapSymbols fun _ => s.symbols.entered))
    (body' t.nextScope { t with nextScope := t.nextScope + 1 })
  rw [hscope]
  apply (hbody t.nextScope _ _ h.inBlock).andThen
  rintro a b s t ⟨rfl, inside, hinside, h⟩
  exact .done ⟨rfl, h.exit hinside⟩

theorem agree_inFunction {f : FunId} {body : Nat -> Parse α} {body' : Nat -> Lexical α}
    (h : StandsAt place s t)
    (hbody : forall scope s t, StandsAt (place.inFunction f) s t ->
      Agree (SameInside (place.inFunction f)) (body scope s) (body' scope t)) :
    Agree (SameAt place) (Parse.inFunction f body s) ((Lexical.freshScope >>= body') t) := by
  apply agree_inScope h
  intro scope s t h
  change Agree (SameInside place.inBlock)
    ((do
      let result ← body scope
      modify fun s => { s with owners := s.owners.tail }
      return result : Parse α) { s with owners := f :: s.owners })
    (body' scope t)
  apply (hbody scope _ _ (h.enterFunction f)).andThen
  rintro a b s t ⟨rfl, inside, hinside, h⟩
  exact .done ⟨rfl, { inside with owners := place.owners }, ⟨hinside.around, rfl⟩,
    h.exitFunction hinside.owners⟩

/-!
# Statements
-/

section Reading

variable {β γ : Type} {post : β -> γ -> ParseState -> LexicalState -> Prop} {f : α -> Parse β}
  {g : α -> Lexical γ}

theorem agree_read (p : TokenParse α) (h : StandsAt place s t)
    (hnext : forall a s t, StandsAt place s t -> Agree post (f a s) (g a t)) :
    Agree post (((liftM p : Parse α) >>= f) s) (((liftM p : Lexical α) >>= g) t) := by
  apply (agree_onTokens p h).bind
  rintro a _ s t ⟨rfl, h⟩
  exact hnext a s t h

theorem agree_readNames (p : Names -> TokenParse α) (h : StandsAt place s t)
    (hnext : forall a s t, StandsAt place s t -> Agree post (f a s) (g a t)) :
    Agree post ((Parse.withNames p >>= f) s) ((Lexical.withNames place p >>= g) t) := by
  apply (agree_withNames p h).bind
  rintro a _ s t ⟨rfl, h⟩
  exact hnext a s t h

end Reading

theorem agree_constDecl (h : StandsAt place s t) :
    Agree (SameStmt place) (Parse.constDecl s) (Lexical.constDecl place t) := by
  apply agree_read _ h
  intro word s t h
  apply agree_read _ h
  intro name s t h
  apply agree_read _ h
  intro colon s t h
  apply agree_read _ h
  intro type s t h
  apply agree_read _ h
  intro equal s t h
  apply agree_readNames _ h
  intro value s t h
  apply (agree_declareConst name.text type value (some name.pos) h).bind
  rintro id b s t ⟨rfl, h⟩
  exact .done ⟨rfl, h⟩

theorem agree_varDecl (h : StandsAt place s t) :
    Agree (SameStmt place) (Parse.varDecl s) (Lexical.varDecl place t) := by
  apply agree_read _ h
  intro word s t h
  apply agree_read _ h
  intro name s t h
  apply agree_read _ h
  intro colon s t h
  apply agree_read _ h
  intro type s t h
  apply agree_read _ h
  intro hasInit s t h
  -- With or without an initializer, the declaration comes behind it.
  have hrest : forall init s t, StandsAt place s t ->
      Agree (SameStmt place)
        ((do
          let id ← Parse.declareVar name.text type none (some name.pos)
          return .varDecl word.pos id init : Parse Stmt) s)
        ((do
          let b ← Lexical.declareVar place name.text type none (some name.pos)
          return (.varDecl word.pos b.id init, some b) : Lexical _) t) := by
    intro init s t h
    apply (agree_declareVar name.text type none (some name.pos) h).bind
    rintro id b s t ⟨rfl, h⟩
    exact .done ⟨rfl, h⟩
  apply Agree.ite
  · intro _
    have hinit : Agree (SameAt place) ((some <$> Parse.withNames Parse.expression) s)
        ((some <$> Lexical.withNames place Parse.expression) t) :=
      (agree_withNames _ h).map fun a b s t hsame => ⟨congrArg some hsame.1, hsame.2⟩
    apply hinit.bind
    rintro init _ s t ⟨rfl, h⟩
    exact hrest init s t h
  · intro _
    exact hrest none s t h

theorem agree_asyncStmt (h : StandsAt place s t) :
    Agree (SameStmt place) (Parse.asyncStmt s) (Lexical.asyncStmt place t) := by
  apply agree_read _ h
  intro word s t h
  apply agree_read _ h
  intro name s t h
  apply agree_read _ h
  intro isDecl s t h
  apply Agree.ite
  · intro _
    apply agree_read _ h
    intro type s t h
    apply agree_read _ h
    intro equal s t h
    apply agree_readNames _ h
    intro call s t h
    apply (agree_declareVar name.text type none (some name.pos) h).bind
    rintro id b s t ⟨rfl, h⟩
    exact .done ⟨rfl, h⟩
  · intro _
    apply agree_read _ h
    intro assign s t h
    apply agree_readNames _ h
    intro target s t h
    -- The type of the target stands in the table.
    have hget : Agree (fun a b s t => a.program = b.program ∧ StandsAt place s t)
        ((get : Parse ParseState) s) ((get : Lexical LexicalState) t) :=
      .done ⟨h.program, h⟩
    apply hget.bind
    rintro a b s t ⟨hprogram, h⟩
    rw [hprogram]
    apply agree_readNames _ h
    intro call s t h
    exact .done ⟨rfl, h⟩

theorem agree_plain {p : Parse Stmt} {q : Lexical Stmt} (h : Agree (SameAt place) (p s) (q t)) :
    Agree (SameStmt place) (p s) (Lexical.plain q t) := by
  rw [← bind_pure p]
  apply h.bind
  rintro a _ s t ⟨rfl, h⟩
  exact .done ⟨rfl, h⟩

end Readers

/-!
# Nested statements
-/

section Nested

variable {inner : Parse Stmt} {inner' : Place -> Lexical (Stmt × Option Binding)}
  (hinner : forall place s t, StandsAt place s t -> Agree (SameStmt place) (inner s) (inner' place t))
  {place : Place} {s : ParseState} {t : LexicalState}

include hinner

theorem agree_blockRestWithin (limit : Nat) (h : StandsAt place s t) :
    Agree (SameInside place) (Parse.blockRestWithin inner limit s)
      (Lexical.blockRestWithin inner' limit place t) := by
  induction limit generalizing place s t with
  | zero => exact agree_failExpected _ h
  | succ limit ih =>
      apply agree_read _ h
      intro isClosed s t h
      apply Agree.ite
      · intro _
        exact .done ⟨rfl, place, .refl place, h⟩
      · intro _
        apply agree_read _ h
        intro kind s t h
        apply Agree.ite
        · intro _
          exact agree_failExpected _ h
        · intro _
          apply (hinner place s t h).bind
          rintro stmt answer s t ⟨rfl, h⟩
          apply (ih h).bind
          rintro rest _ s t ⟨rfl, inside, hinside, h⟩
          exact .done ⟨rfl, inside, hinside.trans (place.inside_after answer.2), h⟩

theorem agree_blockRest (h : StandsAt place s t) :
    Agree (SameInside place) (Parse.blockRest inner s) (Lexical.blockRest inner' place t) := by
  apply agree_read _ h
  intro limit s t h
  exact agree_blockRestWithin hinner limit h

theorem agree_block (h : StandsAt place s t) :
    Agree (SameAt place) (Parse.block inner s) (Lexical.block inner' place t) := by
  apply agree_read _ h
  intro brace s t h
  apply agree_inScope h
  intro scope s t h
  apply (agree_blockRest hinner h).bind
  rintro rest _ s t ⟨rfl, hinside⟩
  exact .done ⟨rfl, hinside⟩

theorem agree_functionBody (f : FunId) (params : List Parse.Parameter) (h : StandsAt place s t) :
    Agree (SameAt place) (Parse.functionBody inner f params s)
      (Lexical.functionBody inner' place f params t) := by
  apply agree_inFunction h
  intro scope s t h
  apply (agree_declareParams params h).bind
  rintro bound answer s t ⟨rfl, hparams, h⟩
  apply (agree_changeProgram h fun c => s.program.entries_setParams f answer.1 c).bind
  rintro _ _ s t ⟨-, h⟩
  apply agree_read _ h
  intro brace s t h
  apply (agree_blockRest hinner h).bind
  rintro rest _ s t ⟨rfl, inside, hinside, h⟩
  exact .done ⟨rfl, inside, hinside.trans hparams, h⟩

theorem agree_funDecl (h : StandsAt place s t) :
    Agree (SameStmt place) (Parse.funDecl inner s) (Lexical.funDecl inner' place t) := by
  apply agree_read _ h
  intro word s t h
  apply agree_read _ h
  intro name s t h
  apply agree_read _ h
  intro params s t h
  apply agree_read _ h
  intro hasResult s t h
  have hrest : forall result s t, StandsAt place s t ->
      Agree (SameStmt place)
        ((do
          let id ← Parse.declareFunction name.text result (some (Parse.pendingBody word.pos))
            (some name.pos)
          let body ← Parse.functionBody inner id params
          Parse.setBody id body
          return .funDecl word.pos id : Parse Stmt) s)
        ((do
          let b ← Lexical.declareFunction place name.text result
            (some (Parse.pendingBody word.pos)) (some name.pos)
          let body ← Lexical.functionBody inner' (place.behind b) b.id params
          Lexical.changeProgram (·.setBody b.id body)
          return (.funDecl word.pos b.id, some b) : Lexical _) t) := by
    intro result s t h
    apply (agree_declareFunction name.text result _ (some name.pos) h).bind
    rintro id b s t ⟨rfl, h⟩
    apply (agree_functionBody hinner b.id params h).bind
    rintro body _ s t ⟨rfl, h⟩
    apply (agree_changeProgram h fun c => s.program.entries_setBody b.id body c).bind
    rintro _ _ s t ⟨-, h⟩
    exact .done ⟨rfl, h⟩
  apply Agree.ite
  · intro _
    apply agree_read _ h
    intro result s t h
    exact hrest result s t h
  · intro _
    exact hrest .none s t h

theorem agree_ifStmt (h : StandsAt place s t) :
    Agree (SameAt place) (Parse.ifStmt inner s) (Lexical.ifStmt inner' place t) := by
  apply agree_read _ h
  intro word s t h
  apply agree_readNames _ h
  intro cond s t h
  apply (agree_block hinner h).bind
  rintro body _ s t ⟨rfl, h⟩
  exact .done ⟨rfl, h⟩

theorem agree_whileStmt (h : StandsAt place s t) :
    Agree (SameAt place) (Parse.whileStmt inner s) (Lexical.whileStmt inner' place t) := by
  apply agree_read _ h
  intro word s t h
  apply agree_readNames _ h
  intro cond s t h
  apply (agree_block hinner h).bind
  rintro body _ s t ⟨rfl, h⟩
  exact .done ⟨rfl, h⟩

theorem agree_blockStmt (h : StandsAt place s t) :
    Agree (SameAt place) (Parse.blockStmt inner s) (Lexical.blockStmt inner' place t) := by
  apply (agree_block hinner h).bind
  rintro body _ s t ⟨rfl, h⟩
  exact .done ⟨rfl, h⟩

theorem agree_statementOf (h : StandsAt place s t) :
    Agree (SameStmt place) (Parse.statementOf inner s) (Lexical.statementOf inner' place t) := by
  apply agree_read _ h
  intro kind s t h
  cases kind
  case constWord => exact agree_constDecl h
  case varWord => exact agree_varDecl h
  case funWord => exact agree_funDecl hinner h
  case openBrace => exact agree_plain (agree_blockStmt hinner h)
  case ifWord => exact agree_plain (agree_ifStmt hinner h)
  case whileWord => exact agree_plain (agree_whileStmt hinner h)
  case returnWord => exact agree_plain (agree_withNames _ h)
  case asyncWord => exact agree_asyncStmt h
  case awaitWord => exact agree_plain (agree_withNames _ h)
  case name => exact agree_plain (agree_withNames _ h)
  all_goals exact agree_failExpected _ h

end Nested

section Programs

variable {place : Place} {s : ParseState} {t : LexicalState}

theorem agree_statementWithin (depth : Nat) (h : StandsAt place s t) :
    Agree (SameStmt place) (Parse.statementWithin depth s)
      (Lexical.statementWithin depth place t) := by
  induction depth generalizing place s t with
  | zero => exact agree_failExpected _ h
  | succ depth ih => exact agree_statementOf (fun _ _ _ h => ih h) h

theorem agree_statement (h : StandsAt place s t) :
    Agree (SameStmt place) (Parse.statement s) (Lexical.statement place t) := by
  apply agree_read _ h
  intro depth s t h
  exact agree_statementWithin depth h

theorem agree_topLevelWithin (limit : Nat) (h : StandsAt place s t) :
    Agree (SameInside place) (Parse.topLevelWithin limit s)
      (Lexical.topLevelWithin limit place t) := by
  induction limit generalizing place s t with
  | zero => exact .done ⟨rfl, place, .refl place, h⟩
  | succ limit ih =>
      apply agree_read _ h
      intro token s t h
      apply Agree.ite
      · intro _
        exact .done ⟨rfl, place, .refl place, h⟩
      · intro _
        apply Agree.ite
        · intro _
          apply (agree_statement h).bind
          rintro stmt answer s t ⟨rfl, h⟩
          apply (ih h).bind
          rintro rest _ s t ⟨rfl, inside, hinside, h⟩
          exact .done ⟨rfl, inside, hinside.trans (place.inside_after answer.2), h⟩
        · intro _
          apply agree_read _ h
          intro word s t h
          exact ih { h with skipped := congrArg (_ :: ·) h.skipped }

/-!
# Names from outside
-/

theorem agree_injectParams (f : FunId) (params : List (String × ValueType))
    (h : StandsAt place s t) :
    Agree (SameAt place) (Parse.injectParams f params s)
      (Lexical.injectParams place f params t) := by
  have hbound : Agree (SameAt place)
      (Parse.inFunction f (fun _ => Parse.declareParams (Parse.givenParameters params)) s)
      (Lexical.givenParams place f params t) := by
    apply agree_inFunction h
    intro scope s t h
    rw [← bind_pure (Parse.declareParams _)]
    apply (agree_declareParams (Parse.givenParameters params) h).bind
    rintro bound answer s t ⟨rfl, hinside, h⟩
    exact .done ⟨rfl, answer.2, hinside, h⟩
  apply hbound.bind
  rintro bound _ s t ⟨rfl, h⟩
  exact agree_changeProgram h fun c => s.program.entries_setParams f bound c

variable {body : Type}

def Injected (place : Place) (_ : Unit) (b : Binding) (s : ParseState) (t : LexicalState) : Prop :=
  StandsAt (place.behind b) s t

theorem agree_declareExtern (entry : Extern body) (h : StandsAt place s t) :
    Agree (Injected place) (Parse.declareExtern entry s)
      (Lexical.declareExtern place entry t) := by
  cases entry with
  | const name type value =>
      rw [Lexical.declareExtern, ← bind_pure (Lexical.declareConst _ _ _ _ _)]
      apply (agree_declareConst name type value none h).bind
      rintro id b s t ⟨-, h⟩
      exact .done h
  | var name type default =>
      rw [Lexical.declareExtern, ← bind_pure (Lexical.declareVar _ _ _ _ _)]
      apply (agree_declareVar name type default none h).bind
      rintro id b s t ⟨-, h⟩
      exact .done h
  | function name params result _ =>
      apply (agree_declareFunction name result none none h).bind
      rintro id b s t ⟨rfl, h⟩
      cases params with
      | none => exact .done h
      | some params =>
          show Agree _ (Parse.injectParams b.id params s) _
          rw [← bind_pure (Parse.injectParams b.id params)]
          apply (agree_injectParams b.id params h).bind
          rintro _ _ s t ⟨-, h⟩
          exact .done h

theorem agree_inject (entry : Extern body) (h : StandsAt place s t) :
    Agree (Injected place) (Parse.inject entry s) (Lexical.inject place entry t) := by
  unfold Parse.inject Lexical.inject
  cases Parse.externFault? entry with
  | some cause => exact agree_fail cause none
  | none => exact agree_declareExtern entry h

theorem agree_injectAll (externs : List (Extern body)) (h : StandsAt place s t) :
    Agree (fun _ inside s t => inside.Inside place ∧ StandsAt inside s t)
      (Parse.injectAll externs s) (Lexical.injectAll externs place t) := by
  induction externs generalizing place s t with
  | nil => exact .done ⟨.refl place, h⟩
  | cons entry rest ih =>
      apply (agree_inject entry h).bind
      intro _ b s t h
      apply (ih h).mono
      rintro _ inside s t ⟨hinside, h⟩
      exact ⟨hinside.trans (place.inside_after (some b)), h⟩

theorem standsAt_start (tokens : List Token) :
    StandsAt .outermost (.ofTokens tokens) (Lexical.start tokens) where
  valid := SymbolTable.valid_empty
  scopes := rfl
  nextId := by
    intro c
    cases c <;> rfl
  owners := rfl
  tokens := rfl
  program := rfl
  nextScope := rfl
  skipped := rfl

theorem agree_wholeProgram (externs : List (Extern body)) (tokens : List Token) :
    Agree (fun root root' s t => root = root' ∧ s.program = t.program ∧ s.skipped = t.skipped)
      (Parse.wholeProgram externs (.ofTokens tokens))
      (Lexical.wholeProgram externs (Lexical.start tokens)) := by
  apply (agree_injectAll externs (standsAt_start tokens)).bind
  rintro _ place s t ⟨-, h⟩
  apply agree_read _ h
  intro limit s t h
  apply (agree_topLevelWithin limit h).mono
  rintro root _ s t ⟨rfl, inside, -, h⟩
  exact ⟨rfl, h.program, h.skipped⟩

end Programs
end Scriptlet
