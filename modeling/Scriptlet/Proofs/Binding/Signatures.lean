import Scriptlet.Proofs.Binding.Programs

/-!
# Signatures

What a program declares could be given to it from outside: variables of the outermost
level have types with values, functions yield values of one type or nothing, and the
parameters of a function have names of their own and types with values.  Every
declaration keeps this, whatever stands around it.
-/

namespace Scriptlet

open Parse (isValueless)

namespace Program

def signature (p : Program) (params : List Param) : List (String × ValueType) :=
  params.map fun q => ((p.variableAt q.var).name, q.type)

structure Apart (p : Program) (params : List Param) : Prop where
  lt : forall q, q ∈ params -> q.var < p.vars.length
  names : ((p.signature params).map (·.1)).Nodup
  types : forall q, q ∈ params -> q.type ≠ .none

structure Signed (p : Program) : Prop where
  globals : forall v, v ∈ p.vars -> v.owner = none -> isValueless v.type = false
  results : forall f, f ∈ p.functions -> f.result ≠ .any
  params : forall f, f ∈ p.functions -> p.Apart f.params

theorem signature_of_vars {q p : Program} (hvars : q.vars <+: p.vars) {params : List Param}
    (hlt : forall param, param ∈ params -> param.var < q.vars.length) :
    p.signature params = q.signature params := by
  obtain ⟨rest, hrest⟩ := hvars
  refine List.map_congr_left fun param hparam => ?_
  simp only [variableAt, ← hrest, List.getD_eq_getElem?_getD,
    List.getElem?_append_left (hlt param hparam)]

theorem Apart.of_vars {q p : Program} {params : List Param} (h : q.Apart params)
    (hvars : q.vars <+: p.vars) : p.Apart params where
  lt := fun param hparam => Nat.lt_of_lt_of_le (h.lt param hparam) hvars.length_le
  names := by
    rw [signature_of_vars hvars h.lt]
    exact h.names
  types := h.types

theorem apart_nil (p : Program) : p.Apart [] :=
  ⟨by simp, .nil, by simp⟩

theorem signed_empty : Program.empty.Signed :=
  ⟨by simp [Program.empty], by simp [Program.empty], by simp [Program.empty]⟩

namespace Signed

variable {p : Program} (h : p.Signed)

include h

theorem function (f : FunId) : (p.function f).result ≠ .any ∧ p.Apart (p.function f).params := by
  by_cases hf : f < p.functions.length
  · have hmem : p.function f ∈ p.functions := by
      rw [Program.function, List.getD_eq_getElem?_getD, List.getElem?_eq_getElem hf]
      exact List.getElem_mem hf
    exact ⟨h.results _ hmem, h.params _ hmem⟩
  · have hmissing : p.function f = default := by
      rw [Program.function, List.getD_eq_getElem?_getD,
        List.getElem?_eq_none (Nat.le_of_not_lt hf)]
      rfl
    rw [hmissing]
    exact ⟨by decide, p.apart_nil⟩

theorem of_same {p' : Program} (hvars : p'.vars = p.vars)
    (hfunctions : p'.functions = p.functions) : p'.Signed where
  globals := fun v hv => h.globals v (hvars ▸ hv)
  results := fun f hf => h.results f (hfunctions ▸ hf)
  params := fun f hf => (h.params f (hfunctions ▸ hf)).of_vars ⟨[], by rw [hvars, List.append_nil]⟩

theorem setFunction (f : FunId) {entry : Function} (hresult : entry.result ≠ .any)
    (hparams : p.Apart entry.params) : (p.setFunction f entry).Signed where
  globals := h.globals
  results := by
    intro g hg
    rcases List.mem_or_eq_of_mem_set hg with hg | rfl
    · exact h.results g hg
    · exact hresult
  params := by
    intro g hg
    rcases List.mem_or_eq_of_mem_set hg with hg | rfl
    · exact (h.params g hg).of_vars ⟨[], List.append_nil _⟩
    · exact hparams.of_vars ⟨[], List.append_nil _⟩

theorem setParams (f : FunId) {params : List Param} (hparams : p.Apart params) :
    (p.setParams f params).Signed :=
  h.setFunction f (h.function f).1 hparams

theorem setBody (f : FunId) (body : Block) : (p.setBody f body).Signed :=
  h.setFunction f (h.function f).1 (h.function f).2

theorem addFunction (name : String) {result : ValueType} (hresult : result ≠ .any)
    (body : Option Block) : (p.addFunction name result body).Signed where
  globals := h.globals
  results := by
    intro g hg
    rcases List.mem_append.mp hg with hg | hg
    · exact h.results g hg
    · rw [List.mem_singleton.mp hg]
      exact hresult
  params := by
    intro g hg
    rcases List.mem_append.mp hg with hg | hg
    · exact (h.params g hg).of_vars ⟨[], List.append_nil _⟩
    · rw [List.mem_singleton.mp hg]
      exact apart_nil _

theorem addSlot (owner : Option FunId) : (p.addSlot owner).Signed := by
  cases owner with
  | none => exact h.of_same rfl rfl
  | some f => exact h.setFunction f (h.function f).1 (h.function f).2

theorem addVar {owner : Option FunId} (name : String) {type : ValueType}
    (htype : owner = none -> isValueless type = false) (default : Option Value) :
    (p.addVar owner name type default).Signed where
  globals := by
    intro v hv
    rcases List.mem_append.mp hv with hv | hv
    · exact h.globals v hv
    · rw [List.mem_singleton.mp hv]
      exact htype
  results := (h.addSlot owner).results
  params := by
    intro f hf
    have hvars : (p.addSlot owner).vars = p.vars := by cases owner <;> rfl
    exact ((h.addSlot owner).params f hf).of_vars ⟨[_], by rw [hvars]; rfl⟩

end Signed
end Program

/-!
# Types that are written
-/

theorem gives_valuedType : Gives Parse.expectType (isValueless · = false) := by
  apply givesAny_currentKind.bind
  intro found _
  cases htype : Parse.typeOf? found with
  | none => exact gives_failExpected _
  | some type =>
      have hvalued : isValueless type = false := by
        cases found <;> cases htype <;> rfl
      exact givesAny_advance.bind fun _ _ => gives_pure hvalued

def ValuedTypes (params : List Parse.Parameter) : Prop :=
  forall p, p ∈ params -> p.type ≠ .none

theorem gives_valuedParameter : Gives Parse.parameter (·.type ≠ .none) := by
  apply (gives_inParameters (givesAny_expect _)).bind
  intro name _
  apply (gives_inParameters (givesAny_expect _)).bind
  intro colon _
  apply (gives_inParameters gives_valuedType).bind
  intro type htype
  refine gives_pure ?_
  rintro rfl
  cases htype

theorem gives_valuedParametersWithin (limit : Nat) :
    Gives (Parse.parametersWithin limit) ValuedTypes := by
  have hsingle : forall p : Parse.Parameter, p.type ≠ .none ->
      Gives (do
        let _ ← Parse.inParameters (Parse.expect .closeParen)
        return [p]) ValuedTypes := by
    intro p hp
    apply (gives_inParameters (givesAny_expect _)).bind
    intro close _
    exact gives_pure (by simpa [ValuedTypes] using hp)
  induction limit with
  | zero => exact gives_valuedParameter.bind hsingle
  | succ limit ih =>
      apply gives_valuedParameter.bind
      intro p hp
      apply (givesAny_accept _).bind
      intro isComma _
      apply Gives.ite
      · intro _
        refine ih.map fun rest hrest => ?_
        exact List.forall_mem_cons.mpr ⟨hp, hrest⟩
      · intro _
        exact hsingle p hp

theorem gives_valuedParameters : Gives Parse.parameters ValuedTypes := by
  apply (givesAny_expect _).bind
  intro opening _
  apply (givesAny_accept _).bind
  intro isClosed _
  apply Gives.ite
  · intro _
    exact gives_pure (by simp [ValuedTypes])
  · intro _
    exact givesAny_tokensLeft.bind fun limit _ => gives_valuedParametersWithin limit

/-!
# Readers that keep the tables signed
-/

def Signs {α : Type} (x : Lexical α) : Prop :=
  forall t : LexicalState, t.program.Signed -> Yields x t fun _ t' => t'.program.Signed

section Rules

variable {α β : Type}

theorem signs_pure (a : α) : Signs (pure a : Lexical α) :=
  fun _ h => h

theorem Signs.bind {x : Lexical α} {f : α -> Lexical β} (hx : Signs x)
    (hf : forall a, Signs (f a)) : Signs (x >>= f) :=
  fun t ht => (hx t ht).bind fun a t' h => hf a t' h

theorem Signs.ite {c : Prop} [Decidable c] {x y : Lexical α} (hx : Signs x) (hy : Signs y) :
    Signs (if c then x else y) := by
  by_cases hc : c
  · rwa [if_pos hc]
  · rwa [if_neg hc]

theorem signs_fail (cause : ParseCause) (pos : Option Pos) :
    Signs (Parse.fail cause pos : Lexical α) :=
  fun _ _ => trivial

theorem Signs.read {p : TokenParse α} {good : α -> Prop} (hp : Gives p good) {f : α -> Lexical β}
    (hf : forall a, good a -> Signs (f a)) : Signs ((liftM p : Lexical α) >>= f) := by
  intro t ht
  have hread : Yields (liftM p : Lexical α) t fun a t' => good a ∧ t'.program.Signed := by
    have hgives := hp t.tokens
    change Yields (Lexical.onTokens p) t _
    unfold Ensures at hgives
    unfold Yields Ensures Lexical.onTokens
    cases hanswer : p t.tokens with
    | error e => trivial
    | ok answer =>
        rw [hanswer] at hgives
        exact ⟨hgives, ht⟩
  exact hread.bind fun a t' h => hf a h.1 t' h.2

theorem signs_onTokens (p : TokenParse α) : Signs (Lexical.onTokens p) := by
  intro t ht
  unfold Yields Ensures Lexical.onTokens
  cases p t.tokens with
  | error e => trivial
  | ok answer => exact ht

theorem signs_liftM (p : TokenParse α) : Signs (liftM p : Lexical α) :=
  signs_onTokens p

theorem signs_withNames (place : Place) (p : Names -> TokenParse α) :
    Signs (Lexical.withNames place p) :=
  fun t ht => signs_onTokens (p (place.names t.program)) t ht

theorem signs_freshScope : Signs Lexical.freshScope :=
  fun _ h => h

theorem signs_get : Signs (get : Lexical LexicalState) :=
  fun _ h => h

theorem signs_changeProgram {change : Program -> Program}
    (hchange : forall p : Program, p.Signed -> (change p).Signed) :
    Signs (Lexical.changeProgram change) :=
  fun t h => hchange t.program h

end Rules

/-!
# Declarations
-/

section Declare

variable {place : Place}

theorem signs_declare {category : Category} (name : String) (type : ValueType)
    (pos : Option Pos) {enter : Program -> Program}
    (henter : forall p : Program, p.Signed -> (enter p).Signed) :
    Signs (Lexical.declare place category name type pos enter) := by
  refine Signs.ite (signs_fail _ _) ?_
  intro t ht
  refine henter _ ?_
  split
  · exact ht.of_same rfl rfl
  · exact ht

theorem signs_declareConst (name : String) (type : ValueType) (value : Value)
    (pos : Option Pos) : Signs (Lexical.declareConst place name type value pos) :=
  signs_declare name type pos fun _ hp => hp.of_same rfl rfl

theorem signs_declareVar (name : String) {type : ValueType}
    (htype : place.owners.head? = none -> isValueless type = false) (default : Option Value)
    (pos : Option Pos) : Signs (Lexical.declareVar place name type default pos) :=
  signs_declare name type pos fun _ hp => hp.addVar name htype default

theorem signs_declareFunction (name : String) {result : ValueType} (hresult : result ≠ .any)
    (body : Option Block) (pos : Option Pos) :
    Signs (Lexical.declareFunction place name result body pos) :=
  signs_declare name result pos fun _ hp => hp.addFunction name hresult body

structure NamesParams (place : Place) (q : Program) (params : List Parse.Parameter)
    (answer : List Param × Place) (p : Program) : Prop where
  signed : p.Signed
  vars : q.vars <+: p.vars
  lt : forall param, param ∈ answer.1 -> param.var < p.vars.length
  signature : p.signature answer.1 = params.map fun param => (param.name, param.type)
  names : (params.map (·.name)).Nodup
  fresh : forall param, param ∈ params -> place.isDeclaredHere param.name = false
  owners : answer.2.owners = place.owners

theorem declare_of_fresh {category : Category} {name : String} {type : ValueType}
    {pos : Option Pos} {enter : Program -> Program} {t : LexicalState}
    (hfresh : place.isDeclaredHere name = false) :
    let b : Binding :=
      { category := category, name := name, id := t.program.entries category, type := type }
    Lexical.declare place category name type pos enter t =
      .ok (b, { t with program := enter (t.program.addGlobals (place.listed (some b))) }) := by
  intro b
  have hlisted : (if place.around.isEmpty then t.program.addGlobal b.global else t.program) =
      t.program.addGlobals (place.listed (some b)) := by
    unfold Place.listed
    split
    · rfl
    · simp [Program.addGlobals]
  rw [← hlisted]
  change (if place.isDeclaredHere name = true then _ else _ : Lexical Binding) t = _
  rw [if_neg (by simp [hfresh])]
  rfl

theorem declare_of_declared {category : Category} {name : String} {type : ValueType}
    {pos : Option Pos} {enter : Program -> Program} (t : LexicalState)
    (hdeclared : place.isDeclaredHere name = true) :
    Lexical.declare place category name type pos enter t =
      .error { cause := .duplicate name, pos := pos } := by
  change (if place.isDeclaredHere name = true then _ else _ : Lexical Binding) t = _
  rw [if_pos hdeclared]
  rfl

theorem yields_declareVar (t : LexicalState) (name : String) (type : ValueType)
    (default : Option Value) (pos : Option Pos) :
    Yields (Lexical.declareVar place name type default pos) t fun b t' =>
      place.isDeclaredHere name = false ∧ b.name = name ∧ t.program.vars <+: t'.program.vars ∧
        b.id < t'.program.vars.length ∧ (t'.program.variableAt b.id).name = name := by
  unfold Yields Ensures Lexical.declareVar
  cases hdeclared : place.isDeclaredHere name with
  | true =>
      rw [declare_of_declared t hdeclared]
      trivial
  | false =>
      rw [declare_of_fresh hdeclared]
      refine ⟨rfl, rfl, ⟨[_], rfl⟩, ?_, ?_⟩
      · simp [Program.addVar, Program.addGlobals, Program.entries]
      · change ((Program.addVar _ _ _ _ _).variableAt t.program.vars.length).name = name
        rw [Program.variableAt_addVar]
        exact congrArg Variable.name (if_pos rfl)

theorem isDeclaredHere_behind (b : Binding) (name : String) :
    (place.behind b).isDeclaredHere name = (place.isDeclaredHere name || b.name == name) := by
  simp [Place.isDeclaredHere, Place.behind]

theorem yields_declareParams (params : List Parse.Parameter) {t : LexicalState}
    (howners : place.owners ≠ []) (ht : t.program.Signed) :
    Yields (Lexical.declareParams params place) t fun answer t' =>
      NamesParams place t.program params answer t'.program := by
  induction params generalizing place t with
  | nil => exact ⟨ht, ⟨[], List.append_nil _⟩, by simp, rfl, .nil, by simp, rfl⟩
  | cons p rest ih =>
      have hdeclare : Signs (Lexical.declareVar place p.name p.type none p.pos) :=
        signs_declareVar p.name (fun h => absurd (List.head?_eq_none_iff.mp h) howners) none p.pos
      refine Ensures.bind ((hdeclare t ht).and (yields_declareVar t p.name p.type none p.pos)) ?_
      rintro b t₁ ⟨ht₁, hfresh, hname, hvars₁, hlt, hvar⟩
      refine Ensures.bind (ih howners ht₁) ?_
      rintro ⟨bound, inside⟩ t₂ h
      have hrest : forall param, param ∈ rest ->
          place.isDeclaredHere param.name = false ∧ p.name ≠ param.name := by
        intro param hparam
        have hfresh := h.fresh param hparam
        rw [isDeclaredHere_behind, Bool.or_eq_false_iff, hname] at hfresh
        exact ⟨hfresh.1, by simpa using hfresh.2⟩
      refine ⟨h.signed, hvars₁.trans h.vars, ?_, ?_, ?_, ?_, h.owners⟩
      · exact List.forall_mem_cons.mpr ⟨Nat.lt_of_lt_of_le hlt h.vars.length_le, h.lt⟩
      · have hsame : (t₂.program.variableAt b.id).name = p.name := by
          have hsignature : t₂.program.signature [{ var := b.id, type := p.type }] = _ :=
            Program.signature_of_vars h.vars (by simpa using hlt)
          have hfirst := congrArg Prod.fst (List.cons.inj hsignature).1
          exact hfirst.trans hvar
        exact List.cons_eq_cons.mpr ⟨Prod.ext hsame rfl, h.signature⟩
      · refine List.nodup_cons.mpr ⟨?_, h.names⟩
        intro hmem
        obtain ⟨param, hparam, hsame⟩ := List.mem_map.mp hmem
        exact (hrest param hparam).2 hsame.symm
      · exact List.forall_mem_cons.mpr ⟨hfresh, fun param hparam => (hrest param hparam).1⟩

theorem NamesParams.apart {q p : Program} {params : List Parse.Parameter}
    {answer : List Param × Place} (h : NamesParams place q params answer p)
    (htypes : ValuedTypes params) : p.Apart answer.1 where
  lt := h.lt
  names := by
    rw [h.signature, List.map_map]
    exact h.names
  types := by
    intro param hparam
    have hmem : ((p.variableAt param.var).name, param.type) ∈ p.signature answer.1 :=
      List.mem_map_of_mem hparam
    rw [h.signature] at hmem
    obtain ⟨given, hgiven, hsame⟩ := List.mem_map.mp hmem
    have htype : given.type = param.type := congrArg Prod.snd hsame
    exact htype ▸ htypes given hgiven

end Declare

/-!
# Statements
-/

section Statements

variable {inner : Place -> Lexical (Stmt × Option Binding)}

theorem signs_constDecl (place : Place) : Signs (Lexical.constDecl place) := by
  apply (signs_liftM _).bind
  intro word
  apply (signs_liftM _).bind
  intro name
  apply (signs_liftM _).bind
  intro colon
  apply (signs_liftM _).bind
  intro type
  apply (signs_liftM _).bind
  intro equal
  apply (signs_withNames place _).bind
  intro value
  exact (signs_declareConst _ _ _ _).bind fun b => signs_pure _

theorem signs_varDecl (place : Place) : Signs (Lexical.varDecl place) := by
  apply (signs_liftM _).bind
  intro word
  apply (signs_liftM _).bind
  intro name
  apply (signs_liftM _).bind
  intro colon
  apply Signs.read gives_valuedType
  intro type htype
  have hrest : forall init : Option Expr, Signs (do
      let b ← Lexical.declareVar place name.text type none (some name.pos)
      return (.varDecl word.pos b.id init, some b) : Lexical (Stmt × Option Binding)) :=
    fun init => (signs_declareVar _ (fun _ => htype) _ _).bind fun b => signs_pure _
  apply (signs_liftM _).bind
  intro hasInit
  apply Signs.ite
  · refine Signs.bind ?_ hrest
    rw [map_eq_pure_bind]
    exact (signs_withNames place _).bind fun e => signs_pure _
  · exact hrest none

theorem signs_asyncStmt (place : Place) : Signs (Lexical.asyncStmt place) := by
  apply (signs_liftM _).bind
  intro word
  apply (signs_liftM _).bind
  intro name
  apply (signs_liftM _).bind
  intro isDecl
  apply Signs.ite
  · apply Signs.read gives_valuedType
    intro type htype
    apply (signs_liftM _).bind
    intro equal
    apply (signs_withNames place _).bind
    rintro ⟨callee, args⟩
    exact (signs_declareVar _ (fun _ => htype) _ _).bind fun b => signs_pure _
  · apply (signs_liftM _).bind
    intro assign
    apply (signs_withNames place _).bind
    intro target
    apply signs_get.bind
    intro t
    apply (signs_withNames place _).bind
    rintro ⟨callee, args⟩
    exact signs_pure _

theorem signs_plain {x : Lexical Stmt} (hx : Signs x) : Signs (Lexical.plain x) :=
  hx.bind fun _ => signs_pure _

variable (hinner : forall place, Signs (inner place))

include hinner

theorem signs_blockRest (place : Place) : Signs (Lexical.blockRest inner place) := by
  apply (signs_liftM _).bind
  intro limit
  induction limit generalizing place with
  | zero => exact signs_liftM _
  | succ limit ih =>
      apply (signs_liftM _).bind
      intro isClosed
      apply Signs.ite
      · exact signs_pure _
      · apply (signs_liftM _).bind
        intro kind
        apply Signs.ite
        · exact signs_liftM _
        · apply (hinner place).bind
          rintro ⟨stmt, declared⟩
          exact (ih (place.after declared)).bind fun rest => signs_pure _

theorem signs_block (place : Place) : Signs (Lexical.block inner place) := by
  apply (signs_liftM _).bind
  intro brace
  apply signs_freshScope.bind
  intro scope
  exact (signs_blockRest hinner place.inBlock).bind fun body => signs_pure _

theorem signs_functionBody (place : Place) (f : FunId) {params : List Parse.Parameter}
    (hparams : ValuedTypes params) : Signs (Lexical.functionBody inner place f params) := by
  apply signs_freshScope.bind
  intro scope t ht
  refine Ensures.bind (yields_declareParams params (List.cons_ne_nil _ _) ht) ?_
  rintro ⟨bound, inside⟩ t₁ h
  have hset : Yields (Lexical.changeProgram (·.setParams f bound)) t₁
      fun _ t₂ => t₂.program.Signed := h.signed.setParams f (h.apart hparams)
  refine hset.bind ?_
  intro _ t₂ ht₂
  have hrest : Signs (do
      let brace ← Parse.expect .openBrace
      return { head := { scope := scope, pos := brace.pos },
               body := ← Lexical.blockRest inner inside } : Lexical Block) :=
    (signs_liftM _).bind fun brace =>
      (signs_blockRest hinner inside).bind fun body => signs_pure _
  exact hrest t₂ ht₂

theorem signs_funDecl (place : Place) : Signs (Lexical.funDecl inner place) := by
  apply (signs_liftM _).bind
  intro word
  apply (signs_liftM _).bind
  intro name
  apply Signs.read gives_valuedParameters
  intro params hparams
  have hrest : forall result : ValueType, result ≠ .any -> Signs (do
      let b ← Lexical.declareFunction place name.text result
        (some (Parse.pendingBody word.pos)) (some name.pos)
      let body ← Lexical.functionBody inner (place.behind b) b.id params
      Lexical.changeProgram (·.setBody b.id body)
      return (.funDecl word.pos b.id, some b) : Lexical (Stmt × Option Binding)) := by
    intro result hresult
    apply (signs_declareFunction _ hresult _ _).bind
    intro b
    apply (signs_functionBody hinner (place.behind b) b.id hparams).bind
    intro body
    exact (signs_changeProgram fun p hp => hp.setBody b.id body).bind fun _ => signs_pure _
  apply (signs_liftM _).bind
  intro hasResult
  apply Signs.ite
  · exact Signs.read gives_expectType fun result hresult => hrest result hresult
  · exact hrest .none (by decide)

theorem signs_ifStmt (place : Place) : Signs (Lexical.ifStmt inner place) := by
  apply (signs_liftM _).bind
  intro word
  apply (signs_withNames place _).bind
  intro cond
  exact (signs_block hinner place).bind fun body => signs_pure _

theorem signs_whileStmt (place : Place) : Signs (Lexical.whileStmt inner place) := by
  apply (signs_liftM _).bind
  intro word
  apply (signs_withNames place _).bind
  intro cond
  exact (signs_block hinner place).bind fun body => signs_pure _

theorem signs_statementOf (place : Place) : Signs (Lexical.statementOf inner place) := by
  apply (signs_liftM _).bind
  intro kind
  cases kind
  case constWord => exact signs_constDecl place
  case varWord => exact signs_varDecl place
  case funWord => exact signs_funDecl hinner place
  case openBrace => exact signs_plain ((signs_block hinner place).bind fun _ => signs_pure _)
  case ifWord => exact signs_plain (signs_ifStmt hinner place)
  case whileWord => exact signs_plain (signs_whileStmt hinner place)
  case returnWord => exact signs_plain (signs_withNames place _)
  case asyncWord => exact signs_asyncStmt place
  case awaitWord => exact signs_plain (signs_withNames place _)
  case name => exact signs_plain (signs_withNames place _)
  all_goals exact signs_liftM _

end Statements

theorem signs_statementWithin (depth : Nat) (place : Place) :
    Signs (Lexical.statementWithin depth place) := by
  induction depth generalizing place with
  | zero => exact signs_liftM _
  | succ depth ih => exact signs_statementOf ih place

theorem signs_topLevelWithin (limit : Nat) (place : Place) :
    Signs (Lexical.topLevelWithin limit place) := by
  induction limit generalizing place with
  | zero => exact signs_pure _
  | succ limit ih =>
      apply (signs_liftM _).bind
      intro token
      apply Signs.ite
      · exact signs_pure _
      · apply Signs.ite
        · refine Signs.bind ((signs_liftM _).bind fun depth => signs_statementWithin depth place) ?_
          rintro ⟨stmt, declared⟩
          exact (ih (place.after declared)).bind fun rest => signs_pure _
        · apply (signs_liftM _).bind
          intro _ t ht
          exact ih place _ ht

/-!
# Names from outside
-/

section Externs

variable {body : Type}

theorem signs_injectParams (place : Place) (f : FunId) {params : List (String × ValueType)}
    (hparams : ValuedTypes (Parse.givenParameters params)) :
    Signs (Lexical.injectParams place f params) := by
  intro t ht
  have hbound : Yields (Lexical.givenParams place f params) t fun bound t' =>
      t'.program.Signed ∧ t'.program.Apart bound := by
    apply (signs_freshScope t ht).bind
    intro _ t₁ ht₁
    refine Ensures.bind (yields_declareParams _ (List.cons_ne_nil _ _) ht₁) ?_
    rintro ⟨bound, inside⟩ t₂ h
    exact ⟨h.signed, h.apart hparams⟩
  refine hbound.bind ?_
  rintro bound t₁ ⟨ht₁, hapart⟩
  exact ht₁.setParams f hapart

theorem signs_inject (place : Place) (entry : Extern body) :
    Signs (Lexical.inject place entry) := by
  unfold Lexical.inject
  cases hfault : Parse.externFault? entry with
  | some cause => exact signs_fail _ _
  | none =>
      cases entry with
      | const name type value => exact signs_declareConst _ _ _ _
      | var name type default =>
          have htype : isValueless type = false := by
            simp only [Parse.externFault?] at hfault
            split at hfault
            · cases hfault
            · rename_i h
              exact Bool.eq_false_iff.mpr h
          exact signs_declareVar _ (fun _ => htype) _ _
      | function name params result given =>
          simp only [Parse.externFault?] at hfault
          split at hfault
          · cases hfault
          · rename_i hresult
            apply (signs_declareFunction _ hresult _ _).bind
            intro b
            cases params with
            | none => exact signs_pure _
            | some params =>
                have hparams : ValuedTypes (Parse.givenParameters params) := by
                  intro param hparam
                  obtain ⟨given, hgiven, rfl⟩ := List.mem_map.mp hparam
                  rw [Option.map_eq_none_iff, List.find?_eq_none] at hfault
                  simpa using hfault given hgiven
                exact (signs_injectParams _ _ hparams).bind fun _ => signs_pure _

theorem signs_injectAll (externs : List (Extern body)) (place : Place) :
    Signs (Lexical.injectAll externs place) := by
  induction externs generalizing place with
  | nil => exact signs_pure _
  | cons entry rest ih => exact (signs_inject place entry).bind fun b => ih (place.behind b)

theorem signs_wholeProgram (externs : List (Extern body)) :
    Signs (Lexical.wholeProgram externs) := by
  apply (signs_injectAll externs _).bind
  intro place
  exact (signs_liftM _).bind fun limit => signs_topLevelWithin limit place

theorem of_parse (post : Program -> Prop) {externs : List (Extern body)} {tokens : List Token}
    (hreads : Yields (Lexical.wholeProgram externs) (Lexical.start tokens) fun root t =>
      post { t.program with root := root }) {parsed : Parsed}
    (h : parse externs tokens = .ok parsed) : post parsed.program := by
  have hagree := agree_wholeProgram externs tokens
  unfold Yields Ensures at hreads
  unfold parse StateT.run at h
  generalize Lexical.wholeProgram externs (Lexical.start tokens) = r' at hreads hagree
  generalize Parse.wholeProgram externs (.ofTokens tokens) = r at hagree h
  cases hagree with
  | failed e => cases h
  | done hsame =>
      obtain ⟨rfl, hprogram, -⟩ := hsame
      cases h
      have hread : post _ := hreads
      rw [← hprogram] at hread
      exact hread

theorem signed_of_parse {externs : List (Extern body)} {tokens : List Token} {parsed : Parsed}
    (h : parse externs tokens = .ok parsed) : parsed.program.Signed := by
  have hsigns := signs_wholeProgram externs (Lexical.start tokens) Program.signed_empty
  exact of_parse Program.Signed (hsigns.mono fun _ _ ht => ht.of_same rfl rfl) h

end Externs

end Scriptlet
