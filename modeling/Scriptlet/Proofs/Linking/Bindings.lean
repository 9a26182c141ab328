import Scriptlet.Proofs.Linking.Imports

/-!
# Functions from outside and their bodies

A program numbers the functions that it is given from outside in the order of their
entries, and so in the order of their bodies.  What is read behind the names from outside
changes neither the numbers nor the functions.
-/

namespace Scriptlet

section Declare

variable {place : Place}

theorem yields_declare (category : Category) (name : String) (type : ValueType)
    (pos : Option Pos) (enter : Program -> Program) (t : LexicalState) :
    Yields (Lexical.declare place category name type pos enter) t fun b t' =>
      b.category = category ∧ b.id = t.program.entries category ∧
        t'.program = enter (t.program.addGlobals (place.listed (some b))) := by
  unfold Yields Ensures
  cases hdeclared : place.isDeclaredHere name with
  | true =>
      rw [declare_of_declared t hdeclared]
      trivial
  | false =>
      rw [declare_of_fresh hdeclared]
      exact ⟨rfl, rfl, rfl⟩

theorem functions_declareParams (params : List Parse.Parameter) (t : LexicalState) :
    Yields (Lexical.declareParams params place) t fun _ t' =>
      t'.program.functions.length = t.program.functions.length := by
  induction params generalizing place t with
  | nil => exact rfl
  | cons p rest ih =>
      refine Ensures.bind (yields_declare .var p.name p.type p.pos _ t) ?_
      rintro b t₁ ⟨-, -, hprogram⟩
      refine (ih t₁).bind ?_
      intro answer t₂ hlength
      refine hlength.trans ?_
      rw [hprogram]
      exact Program.entries_addVar _ _ _ _ _ .function

theorem functions_injectParams (f : FunId) (params : List (String × ValueType))
    (t : LexicalState) :
    Yields (Lexical.injectParams place f params) t fun _ t' =>
      t'.program.functions.length = t.program.functions.length := by
  have hscope : Yields Lexical.freshScope t fun _ t' => t'.program = t.program := rfl
  have hbound : Yields (Lexical.givenParams place f params) t fun _ t' =>
      t'.program.functions.length = t.program.functions.length := by
    refine hscope.bind ?_
    intro _ t₁ hprogram
    rw [← hprogram]
    exact Ensures.bind (functions_declareParams _ t₁) fun _ _ h => h
  refine hbound.bind ?_
  intro bound t₁ hlength
  exact (t₁.program.entries_setParams f bound .function).trans hlength

end Declare

section Externs

variable {body : Type} {place : Place}

structure Numbers (q : Program) (entry : Extern body) (b : Binding) (p : Program) : Prop where
  global : entry.category = .function -> b.global = .function q.functions.length
  functions : p.functions.length = q.functions.length + entry.body?.toList.length

theorem numbers_declareExtern (entry : Extern body) (t : LexicalState) :
    Yields (Lexical.declareExtern place entry) t fun b t' =>
      Numbers t.program entry b t'.program := by
  cases entry with
  | const name type value =>
      refine Ensures.mono (x := Lexical.declareConst place name type value none)
        (yields_declare .const name type none _ t) ?_
      rintro b t' ⟨-, -, hprogram⟩
      refine ⟨nofun, ?_⟩
      rw [hprogram]
      rfl
  | var name type default =>
      refine Ensures.mono (x := Lexical.declareVar place name type default none)
        (yields_declare .var name type none _ t) ?_
      rintro b t' ⟨-, -, hprogram⟩
      refine ⟨nofun, ?_⟩
      rw [hprogram]
      exact Program.entries_addVar _ _ _ _ _ .function
  | function name params result given =>
      refine Ensures.bind (yields_declare .function name result none _ t) ?_
      rintro b t₁ ⟨hcategory, hid, hprogram⟩
      have hglobal : b.global = .function t.program.functions.length := by
        rw [Binding.global, hcategory, hid]
        rfl
      have hlength : t₁.program.functions.length = t.program.functions.length + 1 := by
        rw [hprogram]
        exact Program.entries_addFunction _ _ _ _ .function
      cases params with
      | none => exact ⟨fun _ => hglobal, hlength⟩
      | some params =>
          refine Ensures.bind (functions_injectParams b.id params t₁) ?_
          intro _ t₂ hlength'
          exact ⟨fun _ => hglobal, hlength'.trans hlength⟩

theorem numbers_inject (entry : Extern body) (t : LexicalState) :
    Yields (Lexical.inject place entry) t fun b t' => Numbers t.program entry b t'.program := by
  unfold Lexical.inject
  cases Parse.externFault? entry with
  | some cause => trivial
  | none => exact numbers_declareExtern entry t

structure BindsBodies (q : Program) (externs : List (Extern body)) (p : Program) : Prop where
  functions : p.functions.length = q.functions.length + (Extern.bodies externs).length
  bound : forall entry, entry ∈ externs -> forall given, entry.body? = some given ->
    exists i, (Extern.bodies externs)[i]? = some given ∧
      p.Provides (.function (q.functions.length + i)) entry

theorem BindsBodies.cons {q p r : Program} {entry : Extern body} {rest : List (Extern body)}
    {b : Binding} (hinjects : Injects place q entry b p) (hnumbers : Numbers q entry b p)
    (hgrows : p.Grows r) (hrest : BindsBodies p rest r) : BindsBodies q (entry :: rest) r where
  functions := by
    rw [hrest.functions, hnumbers.functions, Extern.bodies_cons, List.length_append, Nat.add_assoc]
  bound := by
    intro e he given hgiven
    rw [Extern.bodies_cons]
    rcases List.mem_cons.mp he with rfl | he
    · have hglobal := hnumbers.global (Extern.category_of_body hgiven)
      have hb : p.hasGlobal b.global :=
        hinjects.outermost.hasGlobal (by simp [hinjects.globals])
      refine ⟨0, by rw [hgiven]; rfl, ?_⟩
      exact hglobal ▸ hgrows.provides hb hinjects.provides
    · obtain ⟨i, hi, hprovides⟩ := hrest.bound e he given hgiven
      refine ⟨entry.body?.toList.length + i, ?_, ?_⟩
      · rw [List.getElem?_append_right (Nat.le_add_right _ _), Nat.add_sub_cancel_left]
        exact hi
      · rw [← Nat.add_assoc, ← hnumbers.functions]
        exact hprovides

theorem binds_injectAll (externs : List (Extern body)) {t : LexicalState}
    (h : place.Outermost t.program) :
    Yields (Lexical.injectAll externs place) t fun inside t' =>
      inside.Outermost t'.program ∧ t.program.Grows t'.program ∧
        BindsBodies t.program externs t'.program := by
  induction externs generalizing place t with
  | nil => exact ⟨h, .refl _, rfl, by simp⟩
  | cons entry rest ih =>
      have hinject := (leaves_inject h entry t rfl).blame fun _ _ => trivial
      refine Ensures.bind (hinject.and (numbers_inject entry t)) ?_
      rintro b t₁ ⟨hinjects, hnumbers⟩
      refine Ensures.mono (ih hinjects.outermost) ?_
      rintro inside t₂ ⟨houtermost, hgrows, hrest⟩
      exact ⟨houtermost, hinjects.grows.trans hgrows, .cons hinjects hnumbers hgrows hrest⟩

theorem binds_of_parse {externs : List (Extern body)} {tokens : List Token} {parsed : Parsed}
    (h : parse externs tokens = .ok parsed) {entry : Extern body} (hentry : entry ∈ externs)
    {given : body} (hgiven : entry.body? = some given) :
    exists f, (Extern.bodies externs)[f]? = some given ∧
      parsed.program.Provides (.function f) entry := by
  apply of_parse (fun p => exists f, (Extern.bodies externs)[f]? = some given ∧
    p.Provides (.function f) entry) _ h
  refine Ensures.bind (binds_injectAll externs Place.outermost_empty) ?_
  rintro place t ⟨houtermost, -, hbinds⟩
  obtain ⟨f, hf, hprovides⟩ := hbinds.bound entry hentry given hgiven
  have hglobal : t.program.hasGlobal (.function f) := by
    have hlt : f < (Extern.bodies externs).length := (List.getElem?_eq_some_iff.mp hf).1
    change f < t.program.functions.length
    rw [hbinds.functions]
    exact Nat.lt_of_lt_of_le hlt (Nat.le_add_left _ _)
  have hfunction : t.program.Provides (.function f) entry := by
    rw [← Nat.zero_add f]
    exact hprovides
  -- What stands behind the names from outside changes none of them.
  have hlevel := leaves_read (q := t.program) givesAny_tokensLeft fun limit _ =>
    leaves_topLevelWithin limit houtermost
  refine ((hlevel t rfl).blame fun _ _ => trivial).mono ?_
  rintro root t' ⟨⟨listed, hprogress⟩, -, -⟩
  have hgrows := hprogress.grows.trans (t'.program.grows_root root)
  exact ⟨f, hf, hgrows.provides hglobal hfunction⟩

end Externs

end Scriptlet
