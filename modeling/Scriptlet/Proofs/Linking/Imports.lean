import Scriptlet.Proofs.Binding.Signatures

/-!
# Names that are given without a fault

A list of names from outside is accepted when no entry has a fault of its own, no name
comes twice, and no function names two parameters alike.  The outermost scope then holds
the names in their order, each with what its entry asks for, and the functions are
numbered as the bodies that are given for them.
-/

namespace Scriptlet

namespace Extern

variable {body : Type}

def category : Extern body -> Category
  | const _ _ _ => .const
  | var _ _ _ => .var
  | function _ _ _ _ => .function

def type : Extern body -> ValueType
  | const _ type _ => type
  | var _ type _ => type
  | function _ _ result _ => result

def signature : Extern body -> List (String × ValueType)
  | function _ params _ _ => params.getD []
  | _ => []

structure Sound (entry : Extern body) : Prop where
  fault : Parse.externFault? entry = none
  names : (entry.signature.map (·.1)).Nodup

theorem bodies_cons (entry : Extern body) (rest : List (Extern body)) :
    bodies (entry :: rest) = entry.body?.toList ++ bodies rest := by
  cases hbody : entry.body? <;> simp [bodies, hbody]

theorem bodies_append (before after : List (Extern body)) :
    bodies (before ++ after) = bodies before ++ bodies after :=
  List.filterMap_append

end Extern

/-- A name stands for what an entry of the list asks for. -/
structure Binding.Presents {body : Type} (p : Program) (externs : List (Extern body))
    (b : Binding) (entry : Extern body) : Prop where
  category : b.category = entry.category
  name : b.name = entry.name
  type : b.type = entry.type
  provides : p.Provides b.global entry
  signature : b.category = .function -> p.signature (p.function b.id).params = entry.signature
  body : forall given, entry.body? = some given -> (Extern.bodies externs)[b.id]? = some given

/-!
# Readers that succeed
-/

def Succeeds {α : Type} (x : Lexical α) (t : LexicalState) (post : α -> LexicalState -> Prop) :
    Prop :=
  exists a t', x t = .ok (a, t') ∧ post a t'

section Rules

variable {α β : Type} {t : LexicalState} {post : β -> LexicalState -> Prop}

theorem succeeds_pure {b : β} (h : post b t) : Succeeds (pure b) t post :=
  ⟨b, t, rfl, h⟩

theorem Succeeds.bind {x : Lexical α} {f : α -> Lexical β} {mid : α -> LexicalState -> Prop}
    (hx : Succeeds x t mid) (hf : forall a t', mid a t' -> Succeeds (f a) t' post) :
    Succeeds (x >>= f) t post := by
  obtain ⟨a, t', hxa, hmid⟩ := hx
  obtain ⟨b, t'', hfb, hpost⟩ := hf a t' hmid
  refine ⟨b, t'', ?_, hpost⟩
  change (x t >>= fun answer => f answer.1 answer.2) = _
  rw [hxa]
  exact hfb

theorem Succeeds.mono {x : Lexical β} {post' : β -> LexicalState -> Prop} (h : Succeeds x t post)
    (himp : forall b t', post b t' -> post' b t') : Succeeds x t post' := by
  obtain ⟨b, t', hx, hpost⟩ := h
  exact ⟨b, t', hx, himp b t' hpost⟩

theorem Succeeds.and {x : Lexical β} {fault : ParseError -> Prop}
    {post' : β -> LexicalState -> Prop} (h : Succeeds x t post) (h' : Ensures fault x t post') :
    Succeeds x t fun b t' => post b t' ∧ post' b t' := by
  obtain ⟨b, t', hx, hpost⟩ := h
  exact ⟨b, t', hx, hpost, h'.of_ok hx⟩

end Rules

/-- Nothing is read: the tokens and the warnings are as before. -/
structure LexicalState.ReadsNothing (t t' : LexicalState) : Prop where
  tokens : t'.tokens = t.tokens
  skipped : t'.skipped = t.skipped

theorem LexicalState.ReadsNothing.trans {t t' t'' : LexicalState} (h : t.ReadsNothing t')
    (h' : t'.ReadsNothing t'') : t.ReadsNothing t'' :=
  ⟨h'.tokens.trans h.tokens, h'.skipped.trans h.skipped⟩

section Declare

variable {place : Place}

/-!
# Parameters
-/

theorem succeeds_declare {category : Category} {name : String} (type : ValueType)
    (pos : Option Pos) (enter : Program -> Program) (t : LexicalState)
    (hfresh : place.isDeclaredHere name = false) :
    Succeeds (Lexical.declare place category name type pos enter) t fun b t' =>
      t.ReadsNothing t' ∧
        b = { category := category, name := name, id := t.program.entries category,
              type := type } ∧
        t'.program = enter (t.program.addGlobals (place.listed (some b))) :=
  ⟨_, _, declare_of_fresh hfresh, ⟨rfl, rfl⟩, rfl, rfl⟩

theorem succeeds_declareParams (params : List Parse.Parameter) (t : LexicalState)
    (hnames : (params.map (·.name)).Nodup)
    (hfresh : forall p, p ∈ params -> place.isDeclaredHere p.name = false) :
    Succeeds (Lexical.declareParams params place) t fun _ t' =>
      t.ReadsNothing t' ∧ t'.program.functions.length = t.program.functions.length := by
  induction params generalizing place t with
  | nil => exact succeeds_pure ⟨⟨rfl, rfl⟩, rfl⟩
  | cons p rest ih =>
      obtain ⟨hnew, hrest⟩ := List.nodup_cons.mp hnames
      apply (succeeds_declare p.type p.pos _ t (hfresh p List.mem_cons_self)).bind
      rintro b t₁ ⟨hread, hb, hprogram⟩
      have hfresh' : forall q, q ∈ rest -> (place.behind b).isDeclaredHere q.name = false := by
        intro q hq
        rw [isDeclaredHere_behind, hfresh q (List.mem_cons_of_mem p hq), Bool.false_or, hb]
        have hne : p.name ≠ q.name := by
          intro heq
          exact hnew (List.mem_map.mpr ⟨q, hq, heq.symm⟩)
        simpa using hne
      apply (ih t₁ hrest hfresh').bind
      rintro answer t₂ ⟨hread', hlength⟩
      refine succeeds_pure ⟨hread.trans hread', hlength.trans ?_⟩
      rw [hprogram]
      exact Program.entries_addVar _ _ _ _ _ .function

theorem succeeds_injectParams {f : FunId} (params : List (String × ValueType)) (t : LexicalState)
    (ht : t.program.Signed) (hf : f < t.program.functions.length)
    (hnames : (params.map (·.1)).Nodup) :
    Succeeds (Lexical.injectParams place f params) t fun _ t' =>
      t.ReadsNothing t' ∧ t'.program.functions.length = t.program.functions.length ∧
        t'.program.signature (t'.program.function f).params = params := by
  have hgiven : (Parse.givenParameters params).map (fun p => (p.name, p.type)) = params :=
    List.map_map.trans (List.map_id params)
  have hnames' : ((Parse.givenParameters params).map (·.name)).Nodup := by
    rw [Parse.givenParameters, List.map_map]
    exact hnames
  have hbound : Succeeds (Lexical.givenParams place f params) t fun bound t' =>
      t.ReadsNothing t' ∧ t'.program.functions.length = t.program.functions.length ∧
        t'.program.signature bound = params := by
    have hscope : Succeeds Lexical.freshScope t fun _ t₁ =>
        t₁ = { t with nextScope := t.nextScope + 1 } := ⟨_, _, rfl, rfl⟩
    apply hscope.bind
    rintro _ t₁ rfl
    have hfresh : forall p, p ∈ Parse.givenParameters params ->
        (place.inFunction f).isDeclaredHere p.name = false := fun _ _ => rfl
    have hdeclared := (succeeds_declareParams (Parse.givenParameters params)
      { t with nextScope := t.nextScope + 1 } hnames' hfresh).and
        (yields_declareParams _ (List.cons_ne_nil _ _) ht)
    apply hdeclared.bind
    rintro ⟨bound, inside⟩ t₂ ⟨⟨hread, hlength⟩, h⟩
    exact succeeds_pure ⟨⟨hread.tokens, hread.skipped⟩, hlength, h.signature.trans hgiven⟩
  apply hbound.bind
  rintro bound t₁ ⟨hread, hlength, hsignature⟩
  have hf₁ : f < t₁.program.functions.length := hlength ▸ hf
  refine ⟨_, _, rfl, ⟨hread.tokens, hread.skipped⟩, ?_, ?_⟩
  · exact (t₁.program.entries_setParams f bound .function).trans hlength
  · have hparams : ((t₁.program.setParams f bound).function f).params = bound := by
      rw [Program.setParams, Program.function_setFunction _ hf₁, if_pos rfl]
    exact (congrArg (t₁.program.signature ·) hparams).trans hsignature

end Declare

/-!
# Names from outside
-/

section Externs

variable {body : Type} {place : Place}

structure Introduces (place : Place) (t : LexicalState) (entry : Extern body) (b : Binding)
    (t' : LexicalState) : Prop where
  reads : t.ReadsNothing t'
  binding : b =
    { category := entry.category, name := entry.name, id := t.program.entries entry.category,
      type := entry.type }
  functions : t'.program.functions.length =
    t.program.functions.length + entry.body?.toList.length
  signature : entry.category = .function ->
    t'.program.signature (t'.program.function b.id).params = entry.signature

theorem succeeds_declareExtern (entry : Extern body) (t : LexicalState) (ht : t.program.Signed)
    (hentry : entry.Sound) (hfresh : place.isDeclaredHere entry.name = false) :
    Succeeds (Lexical.declareExtern place entry) t (Introduces place t entry) := by
  cases entry with
  | const name type value =>
      refine Succeeds.mono (x := Lexical.declareConst place name type value none)
        (succeeds_declare type none _ t hfresh) ?_
      rintro b t' ⟨hread, hb, hprogram⟩
      exact ⟨hread, hb, by rw [hprogram]; rfl, nofun⟩
  | var name type default =>
      refine Succeeds.mono (x := Lexical.declareVar place name type default none)
        (succeeds_declare type none _ t hfresh) ?_
      rintro b t' ⟨hread, hb, hprogram⟩
      refine ⟨hread, hb, ?_, nofun⟩
      rw [hprogram]
      exact Program.entries_addVar _ _ _ _ _ .function
  | function name params result given =>
      have hresult : result ≠ .any := by
        have hfault := hentry.fault
        simp only [Parse.externFault?] at hfault
        split at hfault
        · cases hfault
        · assumption
      have hsigns : Signs (Lexical.declareFunction place name result none none) :=
        signs_declareFunction name hresult none none
      have hdeclare := (succeeds_declare result none (·.addFunction name result none) t hfresh).and
        (hsigns t ht)
      apply hdeclare.bind
      rintro b t₁ ⟨⟨hread, hb, hprogram⟩, ht₁⟩
      have hlength : t₁.program.functions.length = t.program.functions.length + 1 := by
        rw [hprogram]
        exact Program.entries_addFunction _ _ _ _ .function
      have hid : b.id = t.program.functions.length := by
        rw [hb]
        rfl
      cases params with
      | none =>
          refine succeeds_pure ⟨hread, hb, hlength, fun _ => ?_⟩
          have hparams : (t₁.program.function b.id).params = [] := by
            rw [hprogram, hid, Program.function_addFunction]
            exact congrArg Function.params (if_pos rfl)
          rw [hparams]
          rfl
      | some params =>
          have hnames : (params.map (·.1)).Nodup := hentry.names
          have hlt : b.id < t₁.program.functions.length := by omega
          apply (succeeds_injectParams params t₁ ht₁ hlt hnames).bind
          rintro _ t₂ ⟨hread', hlength', hsignature⟩
          exact succeeds_pure ⟨hread.trans hread', hb, hlength'.trans hlength,
            fun _ => hsignature⟩

theorem succeeds_inject (entry : Extern body) (t : LexicalState)
    (hplace : place.Outermost t.program) (ht : t.program.Signed) (hentry : entry.Sound)
    (hfresh : place.isDeclaredHere entry.name = false) :
    Succeeds (Lexical.inject place entry) t fun b t' =>
      Introduces place t entry b t' ∧ Injects place t.program entry b t'.program ∧
        t'.program.Signed := by
  have hdeclare : Succeeds (Lexical.inject place entry) t (Introduces place t entry) := by
    unfold Lexical.inject
    rw [hentry.fault]
    exact succeeds_declareExtern entry t ht hentry hfresh
  have hboth := (hdeclare.and (leaves_inject hplace entry t rfl)).and
    (signs_inject place entry t ht)
  exact hboth.mono fun _ _ h => ⟨h.1.1, h.1.2, h.2⟩

/-!
# Lists of names
-/

/-- The names of the outermost scope are those of a list, in its order. -/
structure Imports (externs : List (Extern body)) (place : Place) (p : Program) : Prop where
  outermost : place.Outermost p
  signed : p.Signed
  presents : List.Forall₂ (Binding.Presents p externs) place.here externs
  functions : p.functions.length = (Extern.bodies externs).length

theorem imports_nil : Imports ([] : List (Extern body)) .outermost .empty where
  outermost := Place.outermost_empty
  signed := Program.signed_empty
  presents := .nil
  functions := rfl

theorem Imports.isDeclaredHere {externs : List (Extern body)} {p : Program}
    (h : Imports externs place p) {name : String} (hname : name ∉ externs.map (·.name)) :
    place.isDeclaredHere name = false := by
  have hnames : place.here.map (·.name) = externs.map (·.name) := by
    rw [← List.forall₂_eq_eq_eq, List.forall₂_map_left_iff, List.forall₂_map_right_iff]
    exact h.presents.imp fun _ _ hb => hb.name
  rw [Place.isDeclaredHere, List.any_eq_false]
  intro b hb
  have hmem : b.name ∈ externs.map (·.name) := hnames ▸ List.mem_map_of_mem hb
  have hne : b.name ≠ name := fun heq => hname (heq ▸ hmem)
  simpa using hne

theorem Binding.Presents.grow {q p : Program} {before : List (Extern body)} {b : Binding}
    {entry : Extern body} (h : b.Presents q before entry) (hsigned : q.Signed)
    (hb : q.hasGlobal b.global) (hgrows : q.Grows p) (after : List (Extern body)) :
    b.Presents p (before ++ after) entry where
  category := h.category
  name := h.name
  type := h.type
  provides := hgrows.provides hb h.provides
  signature := by
    intro hfunction
    have hid : b.id < q.functions.length := by
      rw [Binding.global, hfunction] at hb
      exact hb
    rw [hgrows.params hid, Program.signature_of_vars hgrows.vars (hsigned.function b.id).2.lt]
    exact h.signature hfunction
  body := by
    intro given hgiven
    have hold := h.body given hgiven
    have hlt : b.id < (Extern.bodies before).length := (List.getElem?_eq_some_iff.mp hold).1
    rw [Extern.bodies_append, List.getElem?_append_left hlt]
    exact hold

theorem Extern.category_of_body {entry : Extern body} {given : body}
    (h : entry.body? = some given) : entry.category = .function := by
  cases entry with
  | const name type value => cases h
  | var name type default => cases h
  | function name params result given' => rfl

theorem Imports.inject {before : List (Extern body)} {entry : Extern body} {t : LexicalState}
    (h : Imports before place t.program) (hentry : entry.Sound)
    (hname : entry.name ∉ before.map (·.name)) :
    Succeeds (Lexical.inject place entry) t fun b t' =>
      t.ReadsNothing t' ∧ Imports (before ++ [entry]) (place.behind b) t'.program := by
  apply (succeeds_inject entry t h.outermost h.signed hentry (h.isDeclaredHere hname)).mono
  rintro b t' ⟨hnew, hinjects, hsigned⟩
  refine ⟨hnew.reads, hinjects.outermost, hsigned, ?_, ?_⟩
  · refine List.rel_append ?_ (.cons ?_ .nil)
    · have hglobal : forall b, b ∈ place.here -> t.program.hasGlobal b.global :=
        fun b hb => (h.outermost.fits hb).hasGlobal
      have hboth := (List.forall₂_and_left place.here before).mpr ⟨hglobal, h.presents⟩
      exact hboth.imp fun b e hb => hb.2.grow h.signed hb.1 hinjects.grows [entry]
    · have hcategory : b.category = entry.category := by rw [hnew.binding]
      refine ⟨hcategory, by rw [hnew.binding], by rw [hnew.binding], hinjects.provides,
        fun hfunction => hnew.signature (hcategory ▸ hfunction), ?_⟩
      intro given hgiven
      have hid : b.id = (Extern.bodies before).length := by
        rw [hnew.binding, Extern.category_of_body hgiven]
        exact h.functions
      have hbodies : Extern.bodies [entry] = [given] := by
        rw [Extern.bodies_cons, hgiven]
        rfl
      rw [Extern.bodies_append, hbodies, hid, List.getElem?_concat_length]
  · have hbodies : Extern.bodies [entry] = entry.body?.toList :=
      (Extern.bodies_cons entry []).trans (List.append_nil _)
    rw [hnew.functions, Extern.bodies_append, List.length_append, hbodies, h.functions]

theorem Imports.injectAll {before : List (Extern body)} (externs : List (Extern body))
    {t : LexicalState} (h : Imports before place t.program)
    (hsound : forall entry, entry ∈ externs -> entry.Sound)
    (hnames : ((before ++ externs).map (·.name)).Nodup) :
    Succeeds (Lexical.injectAll externs place) t fun inside t' =>
      t.ReadsNothing t' ∧ Imports (before ++ externs) inside t'.program := by
  induction externs generalizing before place t with
  | nil =>
      refine succeeds_pure ⟨⟨rfl, rfl⟩, ?_⟩
      rw [List.append_nil]
      exact h
  | cons entry rest ih =>
      have hnew : entry.name ∉ before.map (·.name) := by
        rw [List.map_append, List.nodup_append] at hnames
        intro hmem
        exact hnames.2.2 _ hmem _ List.mem_cons_self rfl
      apply (h.inject (hsound entry List.mem_cons_self) hnew).bind
      rintro b t₁ ⟨hread, h₁⟩
      have hassoc : before ++ entry :: rest = (before ++ [entry]) ++ rest := by simp
      rw [hassoc] at hnames ⊢
      apply (ih h₁ (fun e he => hsound e (List.mem_cons_of_mem entry he)) hnames).mono
      rintro inside t₂ ⟨hread', h₂⟩
      exact ⟨hread.trans hread', h₂⟩

/-!
# The parser
-/

/-- A parser that was given a list of names and has read nothing. -/
structure ParseState.Imported (s : ParseState) (tokens : List Token)
    (externs : List (Extern body)) : Prop where
  tokens : s.tokens = tokens
  skipped : s.skipped = []
  owners : s.owners = []
  openScopes : s.symbols.openScopes = [0]
  presents : List.Forall₂ (Binding.Presents s.program externs) (s.symbols.declaredIn 0) externs
  globals : s.program.globals = (s.symbols.declaredIn 0).map (·.global)

theorem StandsAt.imported {externs : List (Extern body)} {tokens : List Token} {s : ParseState}
    {t : LexicalState} (h : StandsAt place s t) (hread : (Lexical.start tokens).ReadsNothing t)
    (himports : Imports externs place t.program) : s.Imported tokens externs := by
  have hplace := himports.outermost
  have hscopes : s.symbols.scopes = [place.here] := by
    rw [h.scopes, Place.scopes, hplace.around]
  have henclosing : s.symbols.enclosing = [] := List.map_eq_nil_iff.mp (List.cons.inj hscopes).2
  have hcurrent : s.symbols.current = 0 := h.valid.current_eq_zero.mpr henclosing
  have hhere : s.symbols.declaredIn 0 = place.here := hcurrent ▸ (List.cons.inj hscopes).1
  refine ⟨h.tokens.trans hread.tokens, h.skipped.trans hread.skipped,
    h.owners.trans hplace.owners, ?_, ?_, ?_⟩
  · rw [SymbolTable.openScopes, hcurrent, henclosing]
  · rw [hhere, h.program]
    exact himports.presents
  · rw [hhere, h.program]
    exact hplace.globals

theorem injectAll_of_sound {externs : List (Extern body)}
    (hsound : forall entry, entry ∈ externs -> entry.Sound)
    (hnames : (externs.map (·.name)).Nodup) (tokens : List Token) :
    exists s, Parse.injectAll externs (.ofTokens tokens) = .ok ((), s) ∧
      s.Imported tokens externs := by
  obtain ⟨inside, t, ht, hread, himports⟩ :=
    Imports.injectAll externs (t := Lexical.start tokens) imports_nil hsound hnames
  have hagree := agree_injectAll externs (standsAt_start tokens)
  rw [ht] at hagree
  generalize Parse.injectAll externs (.ofTokens tokens) = r at hagree ⊢
  cases hagree with
  | done hstands => exact ⟨_, rfl, hstands.2.imported hread himports⟩

/-- Behind the names that were given, an empty text reads as an empty program. -/
theorem parse_endOfInput {externs : List (Extern body)} {s : ParseState} {token : Token}
    (hs : Parse.injectAll externs (.ofTokens [token]) = .ok ((), s))
    (himported : s.Imported [token] externs) (hend : token.isEnd = true) :
    parse externs [token] = .ok { program := { s.program with root := [] }, warnings := [] } := by
  have hlevel : Parse.topLevel s = .ok ([], s) := by
    obtain ⟨tokens, symbols, program, owners, skipped⟩ := s
    obtain rfl : tokens = [token] := himported.tokens
    change (if token.isEnd = true then _ else _ : Parse (List Stmt)) _ = _
    rw [if_pos hend]
    rfl
  have hwhole : Parse.wholeProgram externs (.ofTokens [token]) = .ok ([], s) := by
    change (Parse.injectAll externs (.ofTokens [token]) >>=
      fun answer => Parse.topLevel answer.2) = _
    rw [hs]
    exact hlevel
  unfold parse StateT.run
  rw [hwhole]
  simp [himported.skipped]

end Externs

end Scriptlet
