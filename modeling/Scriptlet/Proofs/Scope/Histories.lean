import Scriptlet.Proofs.Scope.Stack

/-!
# Histories of a symbol table

A table is asked to declare and to resolve names and to move between scopes.  As long as
only reserved scopes are entered, and each of them once, it answers as a stack of maps
does: entering puts an empty map on top, leaving takes the top away unless it is the last
one, a declaration goes into the top, and a name is looked up from the top down.
-/

namespace Scriptlet

/-- What is asked of a symbol table. -/
inductive ScopeStep (κ : Type := Nat) where
  | declare (category : Category) (name : String) (type : ValueType)
  | resolve (name : String)
  | reserve
  | enterBlock
  | enter (scope : κ)
  | exit

inductive ScopeAnswer (κ : Type := Nat) where
  /-- The new identifier, or that the scope has the name already. -/
  | declared (identifier : Option (Identifier κ))
  | resolved (identifier : Option (Identifier κ))
  /-- The number of a fresh scope. -/
  | scope (number : κ)
  | moved

/-- What is seen of a step: its answer, and the current scope and level behind it. -/
structure ScopeView (κ : Type := Nat) where
  answer : ScopeAnswer κ
  current : κ
  level : κ

section

variable {κ : Type}

namespace ScopeAnswer

def declared? : ScopeAnswer κ -> Option (Identifier κ)
  | declared identifier => identifier
  | _ => none

def scope? : ScopeAnswer κ -> Option κ
  | scope number => some number
  | _ => none

end ScopeAnswer

namespace SymbolTable

variable [OfNat κ 1] [Add κ] [Sub κ] [DecidableEq κ] [LE κ] [DecidableLE κ]

def step (t : SymbolTable κ) : ScopeStep κ -> ScopeAnswer κ × SymbolTable κ
  | .declare category name type =>
      match t.declare? category name type with
      | none => (.declared none, t)
      | some (identifier, t) => (.declared (some identifier), t)
  | .resolve name => (.resolved (t.resolve name), t)
  | .reserve => (.scope t.reserve.1, t.reserve.2)
  | .enterBlock => (.scope t.enterBlock.1, t.enterBlock.2)
  | .enter scope => (.moved, t.enter scope)
  | .exit => (.moved, t.exit)

def history (t : SymbolTable κ) : List (ScopeStep κ) -> List (ScopeView κ)
  | [] => []
  | step :: steps =>
      let behind := (t.step step).2
      { answer := (t.step step).1, current := behind.current, level := behind.level } ::
        behind.history steps

end SymbolTable

def declaredIdentifiers (views : List (ScopeView κ)) : List (Identifier κ) :=
  views.filterMap (·.answer.declared?)

def freshScopes (views : List (ScopeView κ)) : List κ :=
  views.filterMap (·.answer.scope?)

def Identifier.Apart (i j : Identifier κ) : Prop :=
  i.name = j.name -> i.scope ≠ j.scope

end

/-!
# The stack of maps
-/

/-- An open scope with the names that were declared in it. -/
structure OpenScope where
  number : Nat
  names : String -> Option Binding

namespace OpenScope

def empty (number : Nat) : OpenScope :=
  { number := number, names := fun _ => none }

def insert (scope : OpenScope) (b : Binding) : OpenScope :=
  { scope with names := fun name => if name = b.name then some b else scope.names name }

def identifier (scope : OpenScope) (level : Nat) (b : Binding) : Identifier :=
  { b with level := level, scope := scope.number }

/-- A name is looked up from the first scope on; the level of a scope is the number of
scopes behind it. -/
def find (name : String) : List OpenScope -> Option Identifier
  | [] => none
  | scope :: around =>
      match scope.names name with
      | some b => some (scope.identifier around.length b)
      | none => find name around

end OpenScope

structure ScopeStack where
  top : OpenScope
  around : List OpenScope
  /-- Reserved scopes that were not entered. -/
  waiting : List Nat
  nextNumber : Nat
  /-- How many names of a category were declared. -/
  count : Category -> Nat

namespace ScopeStack

def start : ScopeStack :=
  { top := .empty 0, around := [], waiting := [], nextNumber := 1, count := fun _ => 0 }

def scopes (s : ScopeStack) : List OpenScope :=
  s.top :: s.around

def push (s : ScopeStack) (number : Nat) : ScopeStack :=
  { s with top := .empty number, around := s.scopes }

def pop (s : ScopeStack) : ScopeStack :=
  match s.around with
  | [] => s
  | top :: around => { s with top := top, around := around }

def entry (s : ScopeStack) (category : Category) (name : String) (type : ValueType) : Binding :=
  { category := category, name := name, id := s.count category, type := type }

def declare (s : ScopeStack) (b : Binding) : ScopeStack :=
  { s with
    top := s.top.insert b
    count := fun category => s.count category + if b.category = category then 1 else 0 }

def step (s : ScopeStack) : ScopeStep -> ScopeAnswer × ScopeStack
  | .declare category name type =>
      match s.top.names name with
      | some _ => (.declared none, s)
      | none =>
          let b := s.entry category name type
          (.declared (some (s.top.identifier s.around.length b)), s.declare b)
  | .resolve name => (.resolved (OpenScope.find name s.scopes), s)
  | .reserve =>
      (.scope s.nextNumber,
        { s with waiting := s.nextNumber :: s.waiting, nextNumber := s.nextNumber + 1 })
  | .enterBlock =>
      (.scope s.nextNumber, { s.push s.nextNumber with nextNumber := s.nextNumber + 1 })
  | .enter scope => (.moved, { s.push scope with waiting := s.waiting.erase scope })
  | .exit => (.moved, s.pop)

def history (s : ScopeStack) : List ScopeStep -> List ScopeView
  | [] => []
  | step :: steps =>
      let behind := (s.step step).2
      { answer := (s.step step).1, current := behind.top.number, level := behind.around.length } ::
        behind.history steps

def Permits (s : ScopeStack) : ScopeStep -> Prop
  | .enter scope => scope ∈ s.waiting
  | _ => True

def PermitsAll : ScopeStack -> List ScopeStep -> Prop
  | _, [] => True
  | s, step :: steps => s.Permits step ∧ (s.step step).2.PermitsAll steps

instance (s : ScopeStack) : (step : ScopeStep) -> Decidable (s.Permits step)
  | .enter scope => inferInstanceAs (Decidable (scope ∈ s.waiting))
  | .declare _ _ _ | .resolve _ | .reserve | .enterBlock | .exit => isTrue trivial

instance decidablePermitsAll : (s : ScopeStack) -> (steps : List ScopeStep) ->
    Decidable (s.PermitsAll steps)
  | _, [] => isTrue trivial
  | s, step :: steps =>
      have := decidablePermitsAll (s.step step).2 steps
      inferInstanceAs (Decidable (_ ∧ _))

/-!
# The table and its stack
-/

structure Shows (s : ScopeStack) (t : SymbolTable) : Prop where
  valid : t.Valid
  numbers : t.openScopes = s.scopes.map (·.number)
  names : forall scope, scope ∈ s.scopes -> forall name,
    scope.names name = (t.declaredIn scope.number).find? (·.name == name)
  nextNumber : s.nextNumber = t.nextScope
  waiting : forall n, n ∈ s.waiting -> t.Unentered n
  waiting_nodup : s.waiting.Nodup
  count : forall category, s.count category = t.nextId category

variable {s : ScopeStack} {t : SymbolTable}

theorem shows_start : start.Shows .empty where
  valid := SymbolTable.valid_empty
  numbers := rfl
  names := by
    intro scope hscope name
    rw [List.mem_singleton.mp hscope]
    rfl
  nextNumber := rfl
  waiting := fun n hn => absurd hn List.not_mem_nil
  waiting_nodup := List.nodup_nil
  count := by
    intro category
    cases category <;> rfl

theorem Shows.current (h : s.Shows t) : t.current = s.top.number :=
  (List.cons.inj h.numbers).1

theorem Shows.enclosing (h : s.Shows t) : t.enclosing = s.around.map (·.number) :=
  (List.cons.inj h.numbers).2

theorem Shows.level (h : s.Shows t) : t.level = s.around.length := by
  rw [h.valid.depth, h.enclosing, List.length_map]

/-!
# Looking up
-/

theorem find_skip {name : String} {inner outer : List OpenScope}
    (hinner : forall scope, scope ∈ inner -> scope.names name = none) :
    OpenScope.find name (inner ++ outer) = OpenScope.find name outer := by
  induction inner with
  | nil => rfl
  | cons scope inner ih =>
      rw [List.cons_append, OpenScope.find, hinner scope List.mem_cons_self]
      exact ih fun scope' hscope' => hinner scope' (List.mem_cons_of_mem _ hscope')

theorem Shows.names_eq_none (h : s.Shows t) {scope : OpenScope} (hscope : scope ∈ s.scopes)
    {name : String}
    (hnone : forall i, i ∈ t.identifiers -> i.scope = scope.number -> i.name ≠ name) :
    scope.names name = none := by
  rw [h.names scope hscope]
  exact SymbolTable.find_declaredIn_eq_none hnone

theorem Shows.resolve (h : s.Shows t) (name : String) :
    t.resolve name = OpenScope.find name s.scopes := by
  rcases SymbolTable.nowhere_or_innermost t name t.openScopes with
    hnone | ⟨inner, outer, i, hopen, hi, rfl, hinner⟩
  · have hfind : OpenScope.find name (s.scopes ++ []) = OpenScope.find name [] := by
      apply find_skip
      intro scope hscope
      apply h.names_eq_none hscope
      intro i hi hi'
      apply hnone i hi
      rw [hi', h.numbers]
      exact List.mem_map_of_mem hscope
    rw [List.append_nil] at hfind
    rw [SymbolTable.resolve_eq_none hnone, hfind]
    rfl
  · have hnumbers := h.numbers.symm.trans hopen
    rcases List.map_eq_append_iff.mp hnumbers with ⟨before, rest, hscopes, hbefore, hrest⟩
    rcases List.map_eq_cons_iff.mp hrest with ⟨scope, around, rfl, hscope, haround⟩
    have hmem : scope ∈ s.scopes := by
      rw [hscopes]
      exact List.mem_append_right _ List.mem_cons_self
    have hnames : scope.names i.name = some i.toBinding := by
      rw [h.names scope hmem, hscope]
      exact h.valid.find_declaredIn hi
    have hskip : OpenScope.find i.name s.scopes = OpenScope.find i.name (scope :: around) := by
      rw [hscopes]
      apply find_skip
      intro scope' hscope'
      apply h.names_eq_none (hscopes ▸ List.mem_append_left _ hscope')
      intro j hj hj'
      apply hinner j hj
      rw [hj', ← hbefore]
      exact List.mem_map_of_mem hscope'
    have hlevel : i.level = around.length := by
      rw [h.valid.level inner i.scope outer hopen i hi rfl, ← haround, List.length_map]
    rw [h.valid.resolve_eq_some hi hopen hinner, hskip, OpenScope.find, hnames]
    simp only [OpenScope.identifier, hscope, ← hlevel]

/-!
# Steps
-/

theorem Shows.isDeclaredHere (h : s.Shows t) (name : String) :
    t.isDeclaredHere name = (s.top.names name).isSome := by
  rw [SymbolTable.isDeclaredHere_eq, h.names s.top List.mem_cons_self, ← h.current,
    List.isSome_find?]

theorem Shows.names_declare (h : s.Shows t) {category : Category} {name : String}
    {type : ValueType} (hfresh : s.top.names name = none) (other : String) :
    (s.top.insert (s.entry category name type)).names other =
      ((t.push category name type).declaredIn s.top.number).find? (·.name == other) := by
  have hentry : s.entry category name type =
      { category := category, name := name, id := t.nextId category, type := type } := by
    rw [entry, h.count]
  rw [SymbolTable.declaredIn_push, if_pos h.current, List.find?_append, ← hentry,
    ← h.names s.top List.mem_cons_self]
  by_cases hother : other = name
  · subst hother
    simp [OpenScope.insert, hfresh, entry]
  · have hne : name ≠ other := fun heq => hother heq.symm
    simp [OpenScope.insert, hother, hne, entry]

theorem Shows.declare (h : s.Shows t) {category : Category} {name : String} {type : ValueType}
    (hfresh : s.top.names name = none) :
    (s.declare (s.entry category name type)).Shows (t.push category name type) where
  valid := by
    apply h.valid.push
    rw [h.isDeclaredHere, hfresh]
    rfl
  numbers := h.numbers
  names := by
    intro scope hscope other
    rcases List.mem_cons.mp hscope with rfl | hscope
    · exact h.names_declare hfresh other
    · have hnumber : scope.number ∈ t.enclosing := by
        rw [h.enclosing]
        exact List.mem_map_of_mem hscope
      have hne : t.current ≠ scope.number := by
        intro heq
        exact (List.nodup_cons.mp h.valid.nodup).1 (heq ▸ hnumber)
      rw [SymbolTable.declaredIn_push, if_neg hne, List.append_nil]
      exact h.names scope (List.mem_cons_of_mem _ hscope) other
  nextNumber := h.nextNumber
  waiting := fun n hn => (h.waiting n hn).push category name type
  waiting_nodup := h.waiting_nodup
  count := by
    intro other
    rw [SymbolTable.nextId_push, ← h.count]
    rfl

theorem Shows.reserve (h : s.Shows t) :
    (s.step .reserve).2.Shows t.reserve.2 where
  valid := h.valid.reserve
  numbers := h.numbers
  names := h.names
  nextNumber := congrArg (· + 1) h.nextNumber
  waiting := by
    intro n hn
    rcases List.mem_cons.mp hn with rfl | hn
    · rw [h.nextNumber]
      exact h.valid.unentered_reserve
    · have hn := h.waiting n hn
      exact ⟨Nat.lt_succ_of_lt hn.lt, hn.not_open, hn.no_names⟩
  waiting_nodup := by
    apply List.nodup_cons.mpr
    constructor
    · intro hmem
      have hlt := (h.waiting _ hmem).lt
      rw [h.nextNumber] at hlt
      exact Nat.lt_irrefl _ hlt
    · exact h.waiting_nodup
  count := h.count

theorem Shows.enter (h : s.Shows t) {n : Nat} (hn : n ∈ s.waiting) :
    (s.step (.enter n)).2.Shows (t.enter n) where
  valid := h.valid.enter (h.waiting n hn)
  numbers := congrArg (n :: ·) h.numbers
  names := by
    intro scope hscope name
    rcases List.mem_cons.mp hscope with rfl | hscope
    · have hempty : (t.enter n).declaredIn n = [] := (h.waiting n hn).declaredIn
      change none = ((t.enter n).declaredIn n).find? _
      rw [hempty]
      rfl
    · exact h.names scope hscope name
  nextNumber := h.nextNumber
  waiting := by
    intro m hm
    have hparts := (h.waiting_nodup.mem_erase_iff).mp hm
    have hold := h.waiting m hparts.2
    constructor
    · exact hold.lt
    · intro hmem
      rcases List.mem_cons.mp hmem with heq | hmem
      · exact hparts.1 heq
      · exact hold.not_open hmem
    · exact hold.no_names
  waiting_nodup := h.waiting_nodup.erase n
  count := h.count

theorem Shows.enterBlock (h : s.Shows t) : (s.step .enterBlock).2.Shows t.enterBlock.2 := by
  have hstack : (s.step .enterBlock).2 =
      ((s.step .reserve).2.step (.enter s.nextNumber)).2 := by
    simp only [step, push, scopes, List.erase_cons_head]
  have htable : t.enterBlock.2 = t.reserve.2.enter s.nextNumber := by
    rw [h.nextNumber]
    rfl
  rw [hstack, htable]
  exact h.reserve.enter List.mem_cons_self

theorem Shows.exit (h : s.Shows t) : s.pop.Shows t.exit := by
  have henclosing := h.enclosing
  cases haround : s.around with
  | nil =>
      rw [haround] at henclosing
      have hexit : t.exit = t := by
        rw [SymbolTable.exit, henclosing]
        rfl
      have hpop : s.pop = s := by rw [pop, haround]
      rw [hexit, hpop]
      exact h
  | cons top around =>
      rw [haround] at henclosing
      have hexit : t.exit =
          { t with
            current := top.number
            enclosing := around.map (·.number)
            level := t.level - 1 } := by
        rw [SymbolTable.exit, henclosing]
        rfl
      have hpop : s.pop = { s with top := top, around := around } := by rw [pop, haround]
      have hmem : forall scope, scope ∈ s.pop.scopes -> scope ∈ s.scopes := by
        intro scope hscope
        rw [hpop] at hscope
        apply List.mem_cons_of_mem
        rw [haround]
        exact hscope
      constructor
      · exact h.valid.exit
      · rw [hexit, hpop]
        rfl
      · intro scope hscope name
        rw [hexit]
        exact h.names scope (hmem scope hscope) name
      · rw [hexit, hpop]
        exact h.nextNumber
      · rw [hexit, hpop]
        intro n hn
        have hn := h.waiting n hn
        constructor
        · exact hn.lt
        · intro hopen
          apply hn.not_open
          rw [SymbolTable.openScopes, henclosing]
          exact List.mem_cons_of_mem _ hopen
        · exact hn.no_names
      · rw [hpop]
        exact h.waiting_nodup
      · intro category
        rw [hpop, SymbolTable.nextId_exit]
        exact h.count category

theorem Shows.step (h : s.Shows t) {step : ScopeStep} (hstep : s.Permits step) :
    (t.step step).1 = (s.step step).1 ∧ (s.step step).2.Shows (t.step step).2 := by
  cases step with
  | declare category name type =>
      have hdeclared := h.isDeclaredHere name
      cases hnames : s.top.names name with
      | some b =>
          rw [hnames] at hdeclared
          simp only [SymbolTable.step, SymbolTable.declare?_eq, hdeclared, ScopeStack.step, hnames]
          exact ⟨rfl, h⟩
      | none =>
          rw [hnames] at hdeclared
          simp only [SymbolTable.step, SymbolTable.declare?_eq, hdeclared, ScopeStack.step, hnames]
          constructor
          · simp only [OpenScope.identifier, entry, h.count, h.level, h.current]
            rfl
          · exact h.declare hnames
  | resolve name => exact ⟨congrArg ScopeAnswer.resolved (h.resolve name), h⟩
  | reserve => exact ⟨congrArg ScopeAnswer.scope h.nextNumber.symm, h.reserve⟩
  | enterBlock => exact ⟨congrArg ScopeAnswer.scope h.nextNumber.symm, h.enterBlock⟩
  | enter scope => exact ⟨rfl, h.enter hstep⟩
  | exit => exact ⟨rfl, h.exit⟩

theorem Shows.history {steps : List ScopeStep} (h : s.Shows t) (hsteps : s.PermitsAll steps) :
    t.history steps = s.history steps := by
  induction steps generalizing s t with
  | nil => rfl
  | cons step steps ih =>
      rcases h.step hsteps.1 with ⟨hanswer, hbehind⟩
      rw [SymbolTable.history, ScopeStack.history, hanswer, hbehind.current, hbehind.level,
        ih hbehind hsteps.2]

end ScopeStack

/-!
# What a history hands out
-/

namespace SymbolTable

/-- What a step does to the identifiers and to the numbers that are next. -/
structure StepDoes (t : SymbolTable) (answer : ScopeAnswer) (behind : SymbolTable) : Prop where
  identifiers : behind.identifiers = t.identifiers ++ answer.declared?.toList
  nextScope : behind.nextScope = t.nextScope + answer.scope?.toList.length
  nextId : forall category, behind.nextId category =
    t.nextId category + answer.declared?.toList.countP (·.category == category)
  declared : forall i, answer.declared? = some i ->
    t.isDeclaredHere i.name = false ∧ i.scope = t.current ∧ i.id = t.nextId i.category
  scope : forall n, answer.scope? = some n -> n = t.nextScope

theorem StepDoes.nothing {t behind : SymbolTable} {answer : ScopeAnswer}
    (hdeclared : answer.declared? = none) (hscope : answer.scope? = none)
    (hidentifiers : behind.identifiers = t.identifiers) (hnext : behind.nextScope = t.nextScope)
    (hid : behind.nextId = t.nextId) : t.StepDoes answer behind where
  identifiers := by simp [hdeclared, hidentifiers]
  nextScope := by simp [hscope, hnext]
  nextId := by simp [hdeclared, hid]
  declared := by simp [hdeclared]
  scope := by simp [hscope]

theorem StepDoes.number {t behind : SymbolTable} (hidentifiers : behind.identifiers = t.identifiers)
    (hnext : behind.nextScope = t.nextScope + 1) (hid : behind.nextId = t.nextId) :
    t.StepDoes (.scope t.nextScope) behind where
  identifiers := by simp [ScopeAnswer.declared?, hidentifiers]
  nextScope := hnext
  nextId := by simp [ScopeAnswer.declared?, hid]
  declared := by simp [ScopeAnswer.declared?]
  scope := by simp [ScopeAnswer.scope?]

theorem identifiers_exit (t : SymbolTable) : t.exit.identifiers = t.identifiers := by
  cases henclosing : t.enclosing <;> simp [SymbolTable.exit, henclosing]

theorem step_does (t : SymbolTable) (step : ScopeStep) :
    t.StepDoes (t.step step).1 (t.step step).2 := by
  cases step with
  | declare category name type =>
      cases hdeclared : t.isDeclaredHere name with
      | true =>
          simp only [SymbolTable.step, declare?_eq, hdeclared]
          exact .nothing rfl rfl rfl rfl rfl
      | false =>
          simp only [SymbolTable.step, declare?_eq, hdeclared]
          constructor
          · rfl
          · rfl
          · intro other
            exact (t.nextId_push category other name type).trans (by simp [ScopeAnswer.declared?])
          · intro i hi
            cases hi
            exact ⟨hdeclared, rfl, rfl⟩
          · intro n hn
            cases hn
  | resolve name => exact .nothing rfl rfl rfl rfl rfl
  | reserve => exact .number rfl rfl rfl
  | enterBlock => exact .number rfl rfl rfl
  | enter scope => exact .nothing rfl rfl rfl rfl rfl
  | exit => exact .nothing rfl rfl t.identifiers_exit t.nextScope_exit (funext t.nextId_exit)

theorem declaredIdentifiers_cons (t : SymbolTable) (step : ScopeStep) (steps : List ScopeStep) :
    declaredIdentifiers (t.history (step :: steps)) =
      (t.step step).1.declared?.toList ++ declaredIdentifiers ((t.step step).2.history steps) := by
  rw [history, declaredIdentifiers, List.filterMap_cons]
  cases (t.step step).1.declared? <;> rfl

theorem freshScopes_cons (t : SymbolTable) (step : ScopeStep) (steps : List ScopeStep) :
    freshScopes (t.history (step :: steps)) =
      (t.step step).1.scope?.toList ++ freshScopes ((t.step step).2.history steps) := by
  rw [history, freshScopes, List.filterMap_cons]
  cases (t.step step).1.scope? <;> rfl

/-- Scopes are numbered one after another, so that no number is given twice. -/
theorem freshScopes_history (t : SymbolTable) (steps : List ScopeStep) :
    exists n, freshScopes (t.history steps) = List.range' t.nextScope n := by
  induction steps generalizing t with
  | nil => exact ⟨0, rfl⟩
  | cons step steps ih =>
      rcases ih (t.step step).2 with ⟨n, hn⟩
      have hdoes := t.step_does step
      rw [freshScopes_cons, hn, hdoes.nextScope]
      cases hscope : (t.step step).1.scope? with
      | none => exact ⟨n, rfl⟩
      | some number =>
          rw [hdoes.scope number hscope]
          exact ⟨n + 1, List.range'_succ.symm⟩

theorem apart_of_fresh {t : SymbolTable} {i j : Identifier} (hi : i ∈ t.identifiers)
    (hfresh : t.isDeclaredHere j.name = false) (hscope : j.scope = t.current) : i.Apart j := by
  intro hname heq
  have hdeclared : t.isDeclaredHere j.name = true := by
    simp only [isDeclaredHere, List.any_eq_true]
    exact ⟨i, hi, by simp [hname, heq, hscope]⟩
  rw [hfresh] at hdeclared
  cases hdeclared

/-- No scope gets a second identifier of one name. -/
theorem apart_history {t : SymbolTable} (steps : List ScopeStep)
    (h : t.identifiers.Pairwise Identifier.Apart) :
    (t.identifiers ++ declaredIdentifiers (t.history steps)).Pairwise Identifier.Apart := by
  induction steps generalizing t with
  | nil => simpa [history, declaredIdentifiers] using h
  | cons step steps ih =>
      have hdoes := t.step_does step
      have hbehind : (t.step step).2.identifiers.Pairwise Identifier.Apart := by
        rw [hdoes.identifiers, List.pairwise_append]
        refine ⟨h, ?_, ?_⟩
        · cases (t.step step).1.declared? <;> simp
        · intro i hi j hj
          rcases hdoes.declared j (Option.mem_toList.mp hj) with ⟨hfresh, hscope, _⟩
          exact apart_of_fresh hi hfresh hscope
      have hrest := ih hbehind
      rw [hdoes.identifiers, List.append_assoc] at hrest
      rw [declaredIdentifiers_cons]
      exact hrest

theorem ids_history (t : SymbolTable) (category : Category) (steps : List ScopeStep) :
    exists n, ((declaredIdentifiers (t.history steps)).filter (·.category == category)).map (·.id) =
      List.range' (t.nextId category) n := by
  induction steps generalizing t with
  | nil => exact ⟨0, rfl⟩
  | cons step steps ih =>
      rcases ih (t.step step).2 with ⟨n, hn⟩
      have hdoes := t.step_does step
      rw [hdoes.nextId category] at hn
      rw [declaredIdentifiers_cons, List.filter_append, List.map_append, hn]
      cases hdeclared : (t.step step).1.declared? with
      | none => exact ⟨n, rfl⟩
      | some i =>
          rcases hdoes.declared i hdeclared with ⟨_, _, hid⟩
          by_cases hcategory : i.category = category
          · rw [hcategory] at hid
            refine ⟨n + 1, ?_⟩
            simp [hcategory, hid, List.range'_succ]
          · exact ⟨n, by simp [hcategory]⟩

end SymbolTable

end Scriptlet
