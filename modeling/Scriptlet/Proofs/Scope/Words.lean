import Mathlib.Data.List.Nodup
import Mathlib.Data.List.Perm.Subperm
import Scriptlet.Proofs.Scope.Histories

/-!
# Symbol tables in words

The stored table counts scopes, levels and entries in words of 32 bits, which go round.
Until a number goes round, every answer of the table is that of the table that counts in the
natural numbers, and so that of the stack of maps.
-/

namespace Scriptlet

/-!
# Other numbers
-/

section

variable {κ κ' : Type} (f : κ -> κ')

def Binding.map (b : Binding κ) : Binding κ' :=
  { category := b.category, name := b.name, id := f b.id, type := b.type }

def Identifier.map (i : Identifier κ) : Identifier κ' :=
  { i.toBinding.map f with level := f i.level, scope := f i.scope }

def ScopeStep.map : ScopeStep κ -> ScopeStep κ'
  | .declare category name type => .declare category name type
  | .resolve name => .resolve name
  | .reserve => .reserve
  | .enterBlock => .enterBlock
  | .enter scope => .enter (f scope)
  | .exit => .exit

def ScopeAnswer.map : ScopeAnswer κ -> ScopeAnswer κ'
  | .declared identifier => .declared (identifier.map (·.map f))
  | .resolved identifier => .resolved (identifier.map (·.map f))
  | .scope number => .scope (f number)
  | .moved => .moved

def ScopeView.map (view : ScopeView κ) : ScopeView κ' :=
  { answer := view.answer.map f, current := f view.current, level := f view.level }

theorem declaredIdentifiers_map (views : List (ScopeView κ)) :
    declaredIdentifiers (views.map (·.map f)) = (declaredIdentifiers views).map (·.map f) := by
  rw [declaredIdentifiers, declaredIdentifiers, List.filterMap_map, List.map_filterMap]
  congr 1
  funext view
  cases hanswer : view.answer <;> simp [ScopeView.map, ScopeAnswer.map, ScopeAnswer.declared?, hanswer]

theorem freshScopes_map (views : List (ScopeView κ)) :
    freshScopes (views.map (·.map f)) = (freshScopes views).map f := by
  rw [freshScopes, freshScopes, List.filterMap_map, List.map_filterMap]
  congr 1
  funext view
  cases hanswer : view.answer <;> simp [ScopeView.map, ScopeAnswer.map, ScopeAnswer.scope?, hanswer]

end

/-!
# Stored tables
-/

namespace SymbolTable

/-- A table of words that stores what a table counts.  The numbers that are next may have
gone round: nothing has been given them yet. -/
structure Stores (w : SymbolTable UInt32) (t : SymbolTable) : Prop where
  identifiers : w.identifiers.map (·.map UInt32.toNat) = t.identifiers
  enclosing : w.enclosing.map UInt32.toNat = t.enclosing
  current : w.current.toNat = t.current
  level : w.level.toNat = t.level
  nextScope : w.nextScope = UInt32.ofNat t.nextScope
  nextId : forall category, w.nextId category = UInt32.ofNat (t.nextId category)

/-- The numbers that are next are at most one beyond the words. -/
structure FitsWords (t : SymbolTable) : Prop where
  nextScope : t.nextScope ≤ 4294967296
  nextId : forall category, t.nextId category ≤ 4294967296

variable {w : SymbolTable UInt32} {t : SymbolTable}

theorem stores_empty : Stores .empty .empty where
  identifiers := rfl
  enclosing := rfl
  current := rfl
  level := rfl
  nextScope := rfl
  nextId := by
    intro category
    cases category <;> rfl

theorem toNat_ofNat_of_lt {n : Nat} (h : n < 4294967296) : (UInt32.ofNat n).toNat = n := by
  simpa using Nat.mod_eq_of_lt h

theorem toNat_beq (m n : UInt32) : (m.toNat == n.toNat) = (m == n) := by
  rw [Bool.eq_iff_iff, beq_iff_eq, beq_iff_eq, UInt32.toNat_inj]

theorem ofNat_succ (n : Nat) : UInt32.ofNat (n + 1) = UInt32.ofNat n + 1 := by
  simp [UInt32.ofNat_add]

/-!
## Looking up
-/

theorem Stores.isDeclaredHere (h : w.Stores t) (name : String) :
    w.isDeclaredHere name = t.isDeclaredHere name := by
  rw [SymbolTable.isDeclaredHere, SymbolTable.isDeclaredHere, ← h.identifiers, ← h.current,
    List.any_map]
  congr 1
  funext i
  simp [Identifier.map, Binding.map, toNat_beq]

theorem Stores.isVisible (h : w.Stores t) (name : String) (i : Identifier UInt32) :
    t.isVisible name (i.map UInt32.toNat) = w.isVisible name i := by
  have hmem : i.scope.toNat ∈ t.enclosing <-> i.scope ∈ w.enclosing := by
    simp [← h.enclosing, UInt32.toNat_inj]
  simp [SymbolTable.isVisible, isOpen, Identifier.map, Binding.map, ← h.current, toNat_beq, hmem]

theorem deeper_map (best : Option (Identifier UInt32)) (i : Identifier UInt32) :
    deeper (best.map (·.map UInt32.toNat)) (i.map UInt32.toNat) =
      (deeper best i).map (·.map UInt32.toNat) := by
  cases best with
  | none => rfl
  | some best =>
      simp only [Option.map_some, deeper, Identifier.map, ← UInt32.le_iff_toNat_le]
      split <;> rfl

theorem foldl_deeper_map (best : Option (Identifier UInt32)) (candidates : List (Identifier UInt32)) :
    (candidates.map (·.map UInt32.toNat)).foldl deeper (best.map (·.map UInt32.toNat)) =
      (candidates.foldl deeper best).map (·.map UInt32.toNat) := by
  induction candidates generalizing best with
  | nil => rfl
  | cons i rest ih => rw [List.map_cons, List.foldl_cons, deeper_map, ih, List.foldl_cons]

theorem Stores.resolve (h : w.Stores t) (name : String) :
    (w.resolve name).map (·.map UInt32.toNat) = t.resolve name := by
  rw [SymbolTable.resolve, SymbolTable.resolve, ← h.identifiers, List.filter_map,
    show t.isVisible name ∘ (·.map UInt32.toNat) = w.isVisible name from
      funext fun i => h.isVisible name i]
  exact (foldl_deeper_map none _).symm

/-!
## Steps
-/

theorem Valid.level_lt (h : t.Valid) : t.level < t.nextScope := by
  have hsub : t.openScopes ⊆ List.range t.nextScope :=
    fun n hn => List.mem_range.mpr (h.open_lt n hn)
  have hlength := (List.Nodup.subperm h.nodup hsub).length_le
  rw [List.length_range, openScopes, List.length_cons, ← h.depth] at hlength
  exact hlength

theorem Stores.declared (h : w.Stores t) {category : Category} (name : String) (type : ValueType)
    (hid : t.nextId category < 4294967296) :
    ({ category := category, name := name, id := w.nextId category, type := type,
       level := w.level, scope := w.current } : Identifier UInt32).map UInt32.toNat =
      { category := category, name := name, id := t.nextId category, type := type,
        level := t.level, scope := t.current } := by
  simp only [Identifier.map, Binding.map, h.nextId, toNat_ofNat_of_lt hid, h.level, h.current]

theorem Stores.push (h : w.Stores t) {category : Category} (name : String) (type : ValueType)
    (hid : t.nextId category < 4294967296) :
    (w.push category name type).Stores (t.push category name type) where
  identifiers := by
    rw [SymbolTable.push, SymbolTable.push, List.map_append, h.identifiers, List.map_singleton,
      h.declared name type hid]
  enclosing := h.enclosing
  current := h.current
  level := h.level
  nextScope := h.nextScope
  nextId := by
    intro other
    have hold := h.nextId other
    rw [nextId_push]
    by_cases hother : category = other
    · rw [if_pos hother, ofNat_succ, ← hold, ← hother]
      cases category <;> rfl
    · rw [if_neg hother, Nat.add_zero, ← hold]
      cases category <;> cases other <;> first | rfl | exact absurd rfl hother

theorem Stores.reserve (h : w.Stores t) : w.reserve.2.Stores t.reserve.2 where
  identifiers := h.identifiers
  enclosing := h.enclosing
  current := h.current
  level := h.level
  nextScope := by
    show w.nextScope + 1 = UInt32.ofNat (t.nextScope + 1)
    rw [ofNat_succ, h.nextScope]
  nextId := h.nextId

theorem Stores.enter (h : w.Stores t) {scope : UInt32} (hlevel : t.level + 1 < 4294967296) :
    (w.enter scope).Stores (t.enter scope.toNat) where
  identifiers := h.identifiers
  enclosing := by
    show (w.current :: w.enclosing).map UInt32.toNat = t.current :: t.enclosing
    rw [List.map_cons, h.current, h.enclosing]
  current := rfl
  level := by
    show (w.level + 1).toNat = t.level + 1
    rw [UInt32.toNat_add, h.level]
    exact Nat.mod_eq_of_lt hlevel
  nextScope := h.nextScope
  nextId := h.nextId

theorem Stores.exit (h : w.Stores t) (hvalid : t.Valid) : w.exit.Stores t.exit := by
  have henclosing := h.enclosing
  cases hw : w.enclosing with
  | nil =>
      rw [hw, List.map_nil] at henclosing
      simpa [SymbolTable.exit, hw, ← henclosing] using h
  | cons scope rest =>
      rw [hw, List.map_cons] at henclosing
      have hdepth := hvalid.depth
      rw [← henclosing, List.length_cons, ← h.level] at hdepth
      simp only [SymbolTable.exit, hw, ← henclosing]
      refine ⟨h.identifiers, rfl, rfl, ?_, h.nextScope, h.nextId⟩
      have hone : (1 : UInt32) ≤ w.level := by
        rw [UInt32.le_iff_toNat_le, hdepth]
        exact Nat.le_add_left 1 _
      rw [UInt32.toNat_sub_of_le _ _ hone, h.level]
      rfl

theorem Stores.scope (h : w.Stores t) (hnext : t.nextScope + 1 ≤ 4294967296) :
    w.nextScope.toNat = t.nextScope := by
  rw [h.nextScope, toNat_ofNat_of_lt hnext]

theorem Stores.step (h : w.Stores t) (hvalid : t.Valid) {step : ScopeStep UInt32}
    (hbehind : (t.step (step.map UInt32.toNat)).2.Valid)
    (hfits : (t.step (step.map UInt32.toNat)).2.FitsWords) :
    (w.step step).1.map UInt32.toNat = (t.step (step.map UInt32.toNat)).1 ∧
      (w.step step).2.Stores (t.step (step.map UInt32.toNat)).2 := by
  cases step with
  | declare category name type =>
      have hdeclared := h.isDeclaredHere name
      cases hhere : t.isDeclaredHere name with
      | true =>
          rw [hhere] at hdeclared
          simp only [SymbolTable.step, declare?_eq, ScopeStep.map, hdeclared, hhere]
          exact ⟨rfl, h⟩
      | false =>
          rw [hhere] at hdeclared
          simp only [SymbolTable.step, declare?_eq, ScopeStep.map, hdeclared, hhere] at hfits ⊢
          have hid := hfits.nextId category
          simp only [Bool.false_eq_true, if_false, nextId_push, if_true] at hid
          exact ⟨congrArg (fun i => ScopeAnswer.declared (some i)) (h.declared name type hid),
            h.push name type hid⟩
  | resolve name => exact ⟨congrArg ScopeAnswer.resolved (h.resolve name), h⟩
  | reserve => exact ⟨congrArg ScopeAnswer.scope (h.scope hfits.nextScope), h.reserve⟩
  | enterBlock =>
      have hscope := h.scope hfits.nextScope
      have hlevel := Nat.lt_of_lt_of_le hbehind.level_lt hfits.nextScope
      refine ⟨congrArg ScopeAnswer.scope hscope, ?_⟩
      have henter : w.enterBlock.2.Stores (t.reserve.2.enter w.nextScope.toNat) :=
        h.reserve.enter hlevel
      rw [hscope] at henter
      exact henter
  | enter scope =>
      exact ⟨rfl, h.enter (Nat.lt_of_lt_of_le hbehind.level_lt hfits.nextScope)⟩
  | exit => exact ⟨rfl, h.exit hvalid⟩

structure NumbersFit (t : SymbolTable) (views : List ScopeView) : Prop where
  scopes : t.nextScope + (freshScopes views).length ≤ 4294967296
  ids : forall category,
    t.nextId category +
      ((declaredIdentifiers views).countP (·.category == category)) ≤ 4294967296

theorem NumbersFit.behind {step : ScopeStep} {steps : List ScopeStep}
    (h : t.NumbersFit (t.history (step :: steps))) :
    (t.step step).2.NumbersFit ((t.step step).2.history steps) where
  scopes := by
    have hscopes := h.scopes
    rw [freshScopes_cons, List.length_append] at hscopes
    rw [(t.step_does step).nextScope]
    omega
  ids := by
    intro category
    have hids := h.ids category
    rw [declaredIdentifiers_cons, List.countP_append] at hids
    rw [(t.step_does step).nextId]
    omega

theorem NumbersFit.fitsWords {views : List ScopeView} (h : t.NumbersFit views) : t.FitsWords where
  nextScope := Nat.le_of_add_right_le h.scopes
  nextId := fun category => Nat.le_of_add_right_le (h.ids category)

end SymbolTable

/-- As long as its numbers fit, the stored table has the history of the stack that it shows. -/
theorem SymbolTable.Stores.history {s : ScopeStack} {w : SymbolTable UInt32} {t : SymbolTable}
    {steps : List (ScopeStep UInt32)} (h : w.Stores t) (hshows : s.Shows t)
    (hsteps : s.PermitsAll (steps.map (·.map UInt32.toNat)))
    (hfit : t.NumbersFit (t.history (steps.map (·.map UInt32.toNat)))) :
    (w.history steps).map (·.map UInt32.toNat) =
      s.history (steps.map (·.map UInt32.toNat)) := by
  induction steps generalizing s w t with
  | nil => rfl
  | cons step steps ih =>
      rcases hshows.step hsteps.1 with ⟨hanswer, hbehind⟩
      have hrest := hfit.behind
      rcases h.step hshows.valid hbehind.valid hrest.fitsWords with ⟨hsame, hstores⟩
      rw [SymbolTable.history, List.map_cons, List.map_cons, ScopeStack.history,
        ih hstores hbehind hsteps.2 hrest, ScopeView.map]
      rw [hsame, hanswer, hstores.current, hstores.level, hbehind.current, hbehind.level]

/-!
# Tables are stacks
-/

def ScopeStep.numbers (steps : List (ScopeStep UInt32)) : List ScopeStep :=
  steps.map (·.map UInt32.toNat)

/-- A history of a fresh stored table, as it should be. -/
structure StackHistory (steps : List (ScopeStep UInt32)) : Prop where
  /-- Every answer, current scope and level is that of the stack of maps. -/
  same : (SymbolTable.empty.history steps).map (·.map UInt32.toNat) =
    ScopeStack.start.history (ScopeStep.numbers steps)
  scopes : exists n,
    (freshScopes (SymbolTable.empty.history steps)).map UInt32.toNat = List.range' 1 n
  apart : (declaredIdentifiers (SymbolTable.empty.history steps)).Pairwise Identifier.Apart
  ids : forall category, exists n,
    ((declaredIdentifiers (SymbolTable.empty.history steps)).filter
      (·.category == category)).map (·.id.toNat) = List.range n

theorem Identifier.Apart.of_map {i j : Identifier UInt32}
    (h : Apart (i.map UInt32.toNat) (j.map UInt32.toNat)) : i.Apart j :=
  fun hname hscope => h hname (congrArg UInt32.toNat hscope)

/-- As long as only waiting scopes are entered, and no more scopes and names of a category are
numbered than there are words, a symbol table is a stack of maps. -/
theorem table_is_stack (steps : List (ScopeStep UInt32))
    (h : ScopeStack.start.PermitsAll (ScopeStep.numbers steps))
    (hscopes :
      (freshScopes (ScopeStack.start.history (ScopeStep.numbers steps))).length < 4294967296)
    (hnames : forall category : Category,
      (declaredIdentifiers (ScopeStack.start.history (ScopeStep.numbers steps))).countP
        (·.category == category) ≤ 4294967296) :
    StackHistory steps := by
  have hnumbers : SymbolTable.empty.history (ScopeStep.numbers steps) =
      ScopeStack.start.history (ScopeStep.numbers steps) :=
    ScopeStack.shows_start.history h
  have hfit : SymbolTable.empty.NumbersFit
      (SymbolTable.empty.history (ScopeStep.numbers steps)) := by
    rw [hnumbers]
    constructor
    · show 1 + _ ≤ 4294967296
      omega
    · intro category
      have hid : SymbolTable.empty.nextId category = 0 := by
        cases category <;> rfl
      rw [hid, Nat.zero_add]
      exact hnames category
  have hsame := SymbolTable.stores_empty.history ScopeStack.shows_start h hfit
  have hcounted := hsame.trans hnumbers.symm
  constructor
  · exact hsame
  · rcases SymbolTable.freshScopes_history .empty (ScopeStep.numbers steps) with ⟨n, hn⟩
    rw [← hcounted, freshScopes_map] at hn
    exact ⟨n, hn⟩
  · have hapart := SymbolTable.apart_history (t := .empty) (ScopeStep.numbers steps)
      List.Pairwise.nil
    change (declaredIdentifiers _).Pairwise Identifier.Apart at hapart
    rw [← hcounted, declaredIdentifiers_map, List.pairwise_map] at hapart
    exact hapart.imp Identifier.Apart.of_map
  · intro category
    rcases SymbolTable.ids_history .empty category (ScopeStep.numbers steps) with ⟨n, hn⟩
    have hid : SymbolTable.empty.nextId category = 0 := by
      cases category <;> rfl
    rw [← hcounted, declaredIdentifiers_map, List.filter_map, List.map_map, hid,
      ← List.range_eq_range'] at hn
    exact ⟨n, hn⟩

theorem table_is_stack_crossed :
    StackHistory [.reserve, .declare .var "x" .int, .reserve, .enter 2,
      .declare .var "x" .float, .enter 1, .resolve "x", .declare .const "x" .bool, .exit,
      .resolve "x", .enterBlock, .exit, .exit, .exit, .resolve "x"] := by
  apply table_is_stack
  · decide
  · decide
  · intro category
    cases category <;> decide

def ScopeStep.reservations (n : Nat) : List (ScopeStep UInt32) :=
  List.replicate n .reserve

theorem permitsAll_reservations (s : ScopeStack) (n : Nat) :
    s.PermitsAll (ScopeStep.numbers (ScopeStep.reservations n)) := by
  induction n generalizing s with
  | zero => trivial
  | succ n ih => exact ⟨trivial, ih _⟩

theorem length_freshScopes_reservations (w : SymbolTable UInt32) (n : Nat) :
    (freshScopes (w.history (ScopeStep.reservations n))).length = n := by
  induction n generalizing w with
  | zero => rfl
  | succ n ih => exact congrArg (· + 1) (ih w.reserve.2)

theorem length_le_of_nodup {words : List UInt32} (h : words.Nodup) : words.length ≤ 4294967296 := by
  have hnumbers : (words.map UInt32.toNat).Nodup :=
    (List.nodup_map_iff fun _ _ => UInt32.toNat_inj.mp).mpr h
  have hsub : words.map UInt32.toNat ⊆ List.range 4294967296 := by
    intro n hn
    rcases List.mem_map.mp hn with ⟨word, -, rfl⟩
    exact List.mem_range.mpr word.toNat_lt
  have hlength := (List.Nodup.subperm hnumbers hsub).length_le
  rwa [List.length_map, List.length_range] at hlength

/-- There is no word for one more scope: a number is given again, or the outermost scope has it. -/
theorem not_stackHistory_reservations :
    ScopeStack.start.PermitsAll (ScopeStep.numbers (ScopeStep.reservations 4294967296)) ∧
      ¬(0 :: freshScopes
        (SymbolTable.empty.history (ScopeStep.reservations 4294967296))).Nodup ∧
      ¬StackHistory (ScopeStep.reservations 4294967296) := by
  have hlength := length_freshScopes_reservations .empty 4294967296
  have hagain : ¬(0 :: freshScopes
      (SymbolTable.empty.history (ScopeStep.reservations 4294967296))).Nodup := by
    intro hnodup
    have hle := length_le_of_nodup hnodup
    rw [List.length_cons, hlength] at hle
    omega
  refine ⟨permitsAll_reservations _ _, hagain, fun h => hagain ?_⟩
  rcases h.scopes with ⟨n, hn⟩
  have hnumbers : (List.map UInt32.toNat (0 :: freshScopes
      (SymbolTable.empty.history (ScopeStep.reservations 4294967296)))).Nodup := by
    rw [List.map_cons, hn]
    show (List.range' 0 (n + 1)).Nodup
    exact List.nodup_range' _
  exact List.Nodup.of_map _ hnumbers

end Scriptlet
