import Scriptlet.Scope

/-!
# A symbol table is a stack of scopes

A table keeps every identifier that it ever met and finds a name by scope numbers
and levels.  Seen from outside it is a stack: the declarations of the open scopes,
the innermost scope first.  Entering and leaving push and pop, a declaration goes
into the top, and a name stands for its declaration nearest to the top.
-/

namespace Scriptlet

def innermost (scopes : List (List Binding)) (name : String) : Option Binding :=
  scopes.findSome? fun scope => scope.find? (·.name == name)

namespace SymbolTable

def openScopes (t : SymbolTable) : List Nat :=
  t.current :: t.enclosing

def declaredIn (t : SymbolTable) (scope : Nat) : List Binding :=
  (t.identifiers.filter (·.scope == scope)).map (·.toBinding)

def scopes (t : SymbolTable) : List (List Binding) :=
  t.openScopes.map t.declaredIn

/-- What the operations keep.  A level is the number of scopes around a scope. -/
structure Valid (t : SymbolTable) : Prop where
  depth : t.level = t.enclosing.length
  nodup : t.openScopes.Nodup
  outermost : exists inner, t.openScopes = inner ++ [0]
  open_lt : forall n, n ∈ t.openScopes -> n < t.nextScope
  scope_lt : forall i, i ∈ t.identifiers -> i.scope < t.nextScope
  level : forall inner n outer, t.openScopes = inner ++ n :: outer ->
    forall i, i ∈ t.identifiers -> i.scope = n -> i.level = outer.length
  unique : forall i j, i ∈ t.identifiers -> j ∈ t.identifiers ->
    i.name = j.name -> i.scope = j.scope -> i = j

theorem valid_empty : (empty : SymbolTable).Valid where
  depth := rfl
  nodup := by simp [openScopes, empty]
  outermost := ⟨[], rfl⟩
  open_lt := by simp [openScopes, empty]
  scope_lt := by simp [empty]
  level := by simp [empty]
  unique := by simp [empty]

@[simp] theorem scopes_empty : (empty : SymbolTable).scopes = [[]] :=
  rfl

theorem mem_declaredIn {t : SymbolTable} {scope : Nat} {b : Binding} :
    b ∈ t.declaredIn scope <->
      exists i, i ∈ t.identifiers ∧ i.scope = scope ∧ i.toBinding = b := by
  simp [declaredIn, and_assoc]

/-!
# Finding names
-/

theorem foldl_deeper {i : Identifier} {best : Option Identifier} {candidates : List Identifier}
    (hbest : forall j, best = some j -> j = i ∨ j.level < i.level)
    (hless : forall j, j ∈ candidates -> j = i ∨ j.level < i.level)
    (hmem : best = some i ∨ i ∈ candidates) :
    candidates.foldl deeper best = some i := by
  induction candidates generalizing best with
  | nil =>
      rcases hmem with hmem | hmem
      · exact hmem
      · cases hmem
  | cons j rest ih =>
      have hrest : forall k, k ∈ rest -> k = i ∨ k.level < i.level :=
        fun k hk => hless k (List.mem_cons_of_mem j hk)
      have hj := hless j List.mem_cons_self
      have hstep : forall k, deeper best j = some k -> k = best ∨ k = some j := by
        intro k hk
        cases best with
        | none => exact .inr hk.symm
        | some b =>
            by_cases hle : b.level ≤ j.level
            · exact .inr (by simpa [deeper, hle] using hk.symm)
            · exact .inl (by simpa [deeper, hle] using hk.symm)
      rw [List.foldl_cons]
      apply ih
      · intro k hk
        rcases hstep k hk with hk | hk
        · exact hbest k hk.symm
        · cases hk
          exact hj
      · exact hrest
      · rcases hmem with hmem | hmem
        · subst hmem
          rcases hj with hj | hj
          · exact .inl (by simp [deeper, hj])
          · exact .inl (by simp [deeper, Nat.not_le.mpr hj])
        · rcases List.mem_cons.mp hmem with rfl | hmem
          · refine .inl ?_
            cases best with
            | none => rfl
            | some b =>
                rcases hbest b rfl with hb | hb
                · simp [deeper, hb]
                · simp [deeper, Nat.le_of_lt hb]
          · exact .inr hmem

theorem nowhere_or_innermost (t : SymbolTable) (name : String) (numbers : List Nat) :
    (forall i, i ∈ t.identifiers -> i.scope ∈ numbers -> i.name ≠ name) ∨
      exists inner outer i, numbers = inner ++ i.scope :: outer ∧ i ∈ t.identifiers ∧
        i.name = name ∧
        forall j, j ∈ t.identifiers -> j.scope ∈ inner -> j.name ≠ name := by
  induction numbers with
  | nil => exact .inl fun _ _ h => nomatch h
  | cons n rest ih =>
      by_cases hn : exists i, i ∈ t.identifiers ∧ i.scope = n ∧ i.name = name
      · rcases hn with ⟨i, hi, rfl, hname⟩
        exact .inr ⟨[], rest, i, rfl, hi, hname, fun _ _ h => nomatch h⟩
      · have hhead : forall j, j ∈ t.identifiers -> j.scope = n -> j.name ≠ name :=
          fun j hj hscope hname => hn ⟨j, hj, hscope, hname⟩
        rcases ih with hnone | ⟨inner, outer, i, rfl, hi, hname, hinner⟩
        · refine .inl fun j hj hscope => ?_
          rcases List.mem_cons.mp hscope with hscope | hscope
          · exact hhead j hj hscope
          · exact hnone j hj hscope
        · refine .inr ⟨n :: inner, outer, i, rfl, hi, hname, fun j hj hscope => ?_⟩
          rcases List.mem_cons.mp hscope with hscope | hscope
          · exact hhead j hj hscope
          · exact hinner j hj hscope

theorem find_declaredIn_eq_none {t : SymbolTable} {scope : Nat} {name : String}
    (h : forall i, i ∈ t.identifiers -> i.scope = scope -> i.name ≠ name) :
    (t.declaredIn scope).find? (·.name == name) = none := by
  rw [List.find?_eq_none]
  intro b hb
  rcases mem_declaredIn.mp hb with ⟨i, hi, hscope, rfl⟩
  simpa using h i hi hscope

theorem innermost_eq_none {t : SymbolTable} {name : String} {numbers : List Nat}
    (h : forall i, i ∈ t.identifiers -> i.scope ∈ numbers -> i.name ≠ name) :
    innermost (numbers.map t.declaredIn) name = none := by
  unfold innermost
  rw [List.findSome?_eq_none_iff]
  intro scope hscope
  rcases List.mem_map.mp hscope with ⟨n, hn, rfl⟩
  exact find_declaredIn_eq_none fun i hi hi' => h i hi (hi' ▸ hn)

theorem Valid.find_declaredIn {t : SymbolTable} (h : t.Valid) {i : Identifier}
    (hi : i ∈ t.identifiers) :
    (t.declaredIn i.scope).find? (·.name == i.name) = some i.toBinding := by
  have hmem : i.toBinding ∈ t.declaredIn i.scope := mem_declaredIn.mpr ⟨i, hi, rfl, rfl⟩
  cases hfind : (t.declaredIn i.scope).find? (·.name == i.name) with
  | none =>
      rw [List.find?_eq_none] at hfind
      exact absurd (hfind _ hmem) (by simp)
  | some b =>
      rcases mem_declaredIn.mp (List.mem_of_find?_eq_some hfind) with ⟨j, hj, hscope, rfl⟩
      have hname : j.name = i.name := by
        simpa using List.find?_some hfind
      rw [h.unique j i hj hi hname hscope]

theorem mem_visible {t : SymbolTable} {name : String} {i : Identifier} :
    i ∈ t.identifiers.filter (t.isVisible name) <->
      i ∈ t.identifiers ∧ i.name = name ∧ i.scope ∈ t.openScopes := by
  simp [isVisible, isOpen, openScopes]

theorem resolve_eq_none {t : SymbolTable} {name : String}
    (hnone : forall i, i ∈ t.identifiers -> i.scope ∈ t.openScopes -> i.name ≠ name) :
    t.resolve name = none := by
  have hempty : t.identifiers.filter (t.isVisible name) = [] := by
    rw [List.eq_nil_iff_forall_not_mem]
    intro i hmem
    rcases mem_visible.mp hmem with ⟨hi, hname, hscope⟩
    exact hnone i hi hscope hname
  rw [resolve, hempty]
  rfl

theorem Valid.resolve_eq_some {t : SymbolTable} (h : t.Valid) {i : Identifier}
    {inner outer : List Nat} (hi : i ∈ t.identifiers)
    (hopen : t.openScopes = inner ++ i.scope :: outer)
    (hinner : forall j, j ∈ t.identifiers -> j.scope ∈ inner -> j.name ≠ i.name) :
    t.resolve i.name = some i := by
  unfold resolve
  apply foldl_deeper
  · intro j hj
    cases hj
  · intro j hj
    rcases mem_visible.mp hj with ⟨hj, hjname, hjscope⟩
    rw [hopen, List.mem_append, List.mem_cons] at hjscope
    rcases hjscope with hjscope | hjscope | hjscope
    · exact absurd hjname (hinner j hj hjscope)
    · exact .inl (h.unique j i hj hi hjname hjscope)
    · -- A scope further out has a smaller level.
      rcases List.mem_iff_append.mp hjscope with ⟨before, after, rfl⟩
      have hji := h.level (inner ++ i.scope :: before) j.scope after
        (by simp [hopen]) j hj rfl
      have hii := h.level inner i.scope _ hopen i hi rfl
      refine .inr ?_
      rw [hji, hii, List.length_append, List.length_cons]
      omega
  · refine .inr (mem_visible.mpr ⟨hi, rfl, ?_⟩)
    simp [hopen]

theorem Valid.resolve_eq {t : SymbolTable} (h : t.Valid) (name : String) :
    (t.resolve name).map (·.toBinding) = innermost t.scopes name := by
  rcases nowhere_or_innermost t name t.openScopes with
    hnone | ⟨inner, outer, i, hopen, hi, rfl, hinner⟩
  · have hright : innermost t.scopes name = none := innermost_eq_none hnone
    rw [hright, resolve_eq_none hnone]
    rfl
  · have hright : innermost t.scopes i.name = some i.toBinding := by
      have hhead : (inner.map t.declaredIn).findSome? (fun scope => scope.find? (·.name == i.name)) =
          none := innermost_eq_none hinner
      simp [innermost, scopes, hopen, List.findSome?_append, hhead, h.find_declaredIn hi]
    rw [hright, h.resolve_eq_some hi hopen hinner]
    rfl

theorem Valid.current_eq_zero {t : SymbolTable} (h : t.Valid) :
    t.current = 0 <-> t.enclosing = [] := by
  rcases h.outermost with ⟨inner, hinner⟩
  have hnodup := h.nodup
  rw [hinner] at hnodup
  rw [openScopes] at hinner
  cases inner with
  | nil =>
      have hparts := List.cons.inj hinner
      exact iff_of_true hparts.1 hparts.2
  | cons n rest =>
      have hparts := List.cons.inj hinner
      have hcurrent : t.current ≠ 0 := by
        intro hzero
        rw [← hparts.1, hzero] at hnodup
        simp at hnodup
      have henclosing : t.enclosing ≠ [] := by
        intro hnil
        rw [hnil] at hparts
        exact absurd hparts.2 (by simp)
      exact iff_of_false hcurrent henclosing

/-!
# Operations
-/

theorem isDeclaredHere_eq (t : SymbolTable) (name : String) :
    t.isDeclaredHere name = (t.declaredIn t.current).any (·.name == name) := by
  simp [isDeclaredHere, declaredIn, List.any_map, List.any_filter, Function.comp_def,
    Bool.and_comm]

def push {κ : Type} [Add κ] [OfNat κ 1] (t : SymbolTable κ) (category : Category) (name : String)
    (type : ValueType) : SymbolTable κ :=
  { t with
    counters := t.counters.next category
    identifiers := t.identifiers ++
      [{ category := category, name := name, id := t.nextId category, type := type,
         level := t.level, scope := t.current }] }

theorem declare?_eq {κ : Type} [DecidableEq κ] [Add κ] [OfNat κ 1] (t : SymbolTable κ)
    (category : Category) (name : String) (type : ValueType) :
    t.declare? category name type =
      if t.isDeclaredHere name then none
      else some
        ({ category := category, name := name, id := t.nextId category, type := type,
           level := t.level, scope := t.current }, t.push category name type) :=
  rfl

theorem nextId_push (t : SymbolTable) (category other : Category) (name : String)
    (type : ValueType) :
    (t.push category name type).nextId other =
      t.nextId other + if category = other then 1 else 0 := by
  cases category <;> cases other <;> rfl

theorem declaredIn_push (t : SymbolTable) (category : Category) (name : String)
    (type : ValueType) (scope : Nat) :
    (t.push category name type).declaredIn scope =
      t.declaredIn scope ++
        if t.current = scope then
          [{ category := category, name := name, id := t.nextId category, type := type }]
        else [] := by
  by_cases hscope : t.current = scope <;>
    simp [declaredIn, push, List.filter_append, hscope]

theorem Valid.push {t : SymbolTable} (h : t.Valid) {category : Category} {name : String}
    {type : ValueType} (hname : t.isDeclaredHere name = false) :
    (t.push category name type).Valid where
  depth := h.depth
  nodup := h.nodup
  outermost := h.outermost
  open_lt := h.open_lt
  scope_lt := by
    intro i hi
    rcases List.mem_append.mp hi with hi | hi
    · exact h.scope_lt i hi
    · rw [List.mem_singleton] at hi
      subst hi
      exact h.open_lt t.current List.mem_cons_self
  level := by
    intro inner n outer hopen i hi hscope
    rcases List.mem_append.mp hi with hi | hi
    · exact h.level inner n outer hopen i hi hscope
    · rw [List.mem_singleton] at hi
      subst hi
      change t.openScopes = inner ++ n :: outer at hopen
      -- The current scope stands first among the open ones and nowhere else.
      have hscope : t.current = n := hscope
      have hnodup := h.nodup
      rw [hopen] at hnodup
      cases inner with
      | nil =>
          have hparts := List.cons.inj hopen
          exact h.depth.trans (congrArg List.length hparts.2)
      | cons m rest =>
          have hparts := List.cons.inj hopen
          rw [← hparts.1, hscope] at hnodup
          simp at hnodup
  unique := by
    have hnew : forall j, j ∈ t.identifiers -> j.name = name -> j.scope ≠ t.current := by
      intro j hj hjname hscope
      have hdeclared : t.isDeclaredHere name = true := by
        simp only [isDeclaredHere, List.any_eq_true]
        exact ⟨j, hj, by simp [hjname, hscope]⟩
      rw [hname] at hdeclared
      cases hdeclared
    intro i j hi hj hij hscope
    rcases List.mem_append.mp hi with hi | hi <;> rcases List.mem_append.mp hj with hj | hj
    · exact h.unique i j hi hj hij hscope
    · rw [List.mem_singleton] at hj
      subst hj
      exact absurd hscope (hnew i hi hij)
    · rw [List.mem_singleton] at hi
      subst hi
      exact absurd hscope.symm (hnew j hj hij.symm)
    · rw [List.mem_singleton] at hi hj
      rw [hi, hj]

theorem Valid.scopes_push {t : SymbolTable} (h : t.Valid) (category : Category)
    (name : String) (type : ValueType) :
    (t.push category name type).scopes =
      (t.declaredIn t.current ++
        [{ category := category, name := name, id := t.nextId category, type := type }]) ::
        t.enclosing.map t.declaredIn := by
  have hnodup := List.nodup_cons.mp h.nodup
  have htail : t.enclosing.map (t.push category name type).declaredIn =
      t.enclosing.map t.declaredIn := by
    apply List.map_congr_left
    intro n hn
    have hne : t.current ≠ n := fun heq => hnodup.1 (heq ▸ hn)
    simp [declaredIn_push, hne]
  have hhead : (t.push category name type).declaredIn t.current =
      t.declaredIn t.current ++
        [{ category := category, name := name, id := t.nextId category, type := type }] := by
    simp [declaredIn_push]
  show (t.push category name type).declaredIn t.current ::
      t.enclosing.map (t.push category name type).declaredIn = _
  rw [hhead, htail]

structure Unentered (t : SymbolTable) (scope : Nat) : Prop where
  lt : scope < t.nextScope
  not_open : scope ∉ t.openScopes
  no_names : forall i, i ∈ t.identifiers -> i.scope ≠ scope

theorem Valid.reserve {t : SymbolTable} (h : t.Valid) : t.reserve.2.Valid where
  depth := h.depth
  nodup := h.nodup
  outermost := h.outermost
  open_lt := fun n hn => Nat.lt_succ_of_lt (h.open_lt n hn)
  scope_lt := fun i hi => Nat.lt_succ_of_lt (h.scope_lt i hi)
  level := h.level
  unique := h.unique

theorem Valid.unentered_reserve {t : SymbolTable} (h : t.Valid) :
    t.reserve.2.Unentered t.nextScope where
  lt := Nat.lt_succ_self _
  not_open := fun hmem => Nat.lt_irrefl _ (h.open_lt _ hmem)
  no_names := fun i hi => Nat.ne_of_lt (h.scope_lt i hi)

theorem Valid.enter {t : SymbolTable} (h : t.Valid) {scope : Nat} (hscope : t.Unentered scope) :
    (t.enter scope).Valid where
  depth := congrArg (· + 1) h.depth
  nodup := List.nodup_cons.mpr ⟨hscope.not_open, h.nodup⟩
  outermost := by
    rcases h.outermost with ⟨inner, hinner⟩
    exact ⟨scope :: inner, congrArg (scope :: ·) hinner⟩
  open_lt := by
    intro n hn
    rcases List.mem_cons.mp hn with rfl | hn
    · exact hscope.lt
    · exact h.open_lt n hn
  scope_lt := h.scope_lt
  level := by
    intro inner n outer hopen i hi hn
    change scope :: t.openScopes = inner ++ n :: outer at hopen
    cases inner with
    | nil =>
        cases hopen
        exact absurd hn (hscope.no_names i hi)
    | cons m rest =>
        rw [List.cons_append, List.cons.injEq] at hopen
        exact h.level rest n outer hopen.2 i hi hn
  unique := h.unique

theorem Unentered.declaredIn {t : SymbolTable} {scope : Nat} (h : t.Unentered scope) :
    t.declaredIn scope = [] := by
  rw [List.eq_nil_iff_forall_not_mem]
  intro b hb
  rcases mem_declaredIn.mp hb with ⟨i, hi, hn, -⟩
  exact h.no_names i hi hn

theorem Unentered.push {t : SymbolTable} {scope : Nat} (h : t.Unentered scope)
    (category : Category) (name : String) (type : ValueType) :
    (t.push category name type).Unentered scope where
  lt := h.lt
  not_open := h.not_open
  no_names := by
    intro i hi
    rcases List.mem_append.mp hi with hi | hi
    · exact h.no_names i hi
    · rw [List.mem_singleton.mp hi]
      intro hcurrent
      apply h.not_open
      rw [← hcurrent]
      exact List.mem_cons_self

def entered (t : SymbolTable) : SymbolTable :=
  { t with
    enclosing := t.openScopes
    current := t.nextScope
    level := t.level + 1
    nextScope := t.nextScope + 1 }

theorem Valid.entered {t : SymbolTable} (h : t.Valid) : t.entered.Valid :=
  h.reserve.enter h.unentered_reserve

theorem Valid.scopes_entered {t : SymbolTable} (h : t.Valid) :
    t.entered.scopes = [] :: t.scopes := by
  have hhead : t.declaredIn t.nextScope = [] := h.unentered_reserve.declaredIn
  show t.declaredIn t.nextScope :: t.scopes = _
  rw [hhead]

theorem Valid.exit {t : SymbolTable} (h : t.Valid) : t.exit.Valid := by
  cases henclosing : t.enclosing with
  | nil => simpa [SymbolTable.exit, henclosing] using h
  | cons n rest =>
      have hopen : t.openScopes = t.current :: (n :: rest) := by
        rw [openScopes, henclosing]
      have hexit : t.exit.openScopes = n :: rest := by
        simp [SymbolTable.exit, henclosing, openScopes]
      have hids : t.exit.identifiers = t.identifiers := by
        simp [SymbolTable.exit, henclosing]
      have hnext : t.exit.nextScope = t.nextScope := by
        simp [SymbolTable.exit, henclosing]
      have hnodup := h.nodup
      rw [hopen] at hnodup
      refine ⟨?_, ?_, ?_, ?_, ?_, ?_, ?_⟩
      · simp [SymbolTable.exit, henclosing, h.depth]
      · rw [hexit]
        exact (List.nodup_cons.mp hnodup).2
      · rcases h.outermost with ⟨inner, hinner⟩
        rw [hexit]
        cases inner with
        | nil =>
            rw [hopen] at hinner
            exact absurd (List.cons.inj hinner).2 (by simp)
        | cons m inner =>
            rw [hopen, List.cons_append, List.cons.injEq] at hinner
            exact ⟨inner, hinner.2⟩
      · rw [hexit, hnext]
        exact fun m hm => h.open_lt m (hopen ▸ List.mem_cons_of_mem _ hm)
      · rw [hids, hnext]
        exact h.scope_lt
      · rw [hexit, hids]
        intro inner m outer heq
        exact h.level (t.current :: inner) m outer (by rw [hopen, heq]; rfl)
      · rw [hids]
        exact h.unique

theorem scopes_exit {t : SymbolTable} {scope : List Binding} {around : List (List Binding)}
    (hscopes : t.scopes = scope :: around) (haround : around ≠ []) :
    t.exit.scopes = around := by
  have htail : t.enclosing.map t.declaredIn = around := (List.cons.inj hscopes).2
  cases henclosing : t.enclosing with
  | nil =>
      rw [henclosing] at htail
      exact absurd htail.symm haround
  | cons n rest =>
      have hexit : t.exit.openScopes = n :: rest := by
        simp [SymbolTable.exit, henclosing, openScopes]
      have hids : t.exit.declaredIn = t.declaredIn := by
        funext m
        simp [SymbolTable.exit, henclosing, declaredIn]
      rw [scopes, hexit, hids, ← henclosing]
      exact htail

theorem nextId_exit (t : SymbolTable) (category : Category) :
    t.exit.nextId category = t.nextId category := by
  cases henclosing : t.enclosing <;> simp [SymbolTable.exit, henclosing, nextId]

theorem nextScope_exit (t : SymbolTable) : t.exit.nextScope = t.nextScope := by
  cases henclosing : t.enclosing <;> simp [SymbolTable.exit, henclosing]

end SymbolTable
end Scriptlet
