import Mathlib.Data.List.Nodup
import Scriptlet.Proofs.Program.Growth
import Scriptlet.Proofs.Program.Mention

/-!
# Well-formed programs

The tables of a well-formed program agree with each other, and its trees name only
what their place may name.  The slots of an owner are numbered without gaps, and the
parameters of a function have the first ones.  A body names variables of its own
function, of the functions around it, and of the outermost level.
-/

namespace Scriptlet

namespace Program

def ParamsFirst (p : Program) (f : FunId) : Prop :=
  forall i param, (p.function f).params[i]? = some param ->
    param.var < p.vars.length ∧ (p.variableAt param.var).owner = some f ∧
      (p.variableAt param.var).slot = i ∧ (p.variableAt param.var).type = param.type

def slotsOf (p : Program) (owner : Option FunId) : List Nat :=
  (p.vars.filter (·.owner == owner)).map (·.slot)

structure Tables (p : Program) : Prop where
  slots : forall owner, p.slotsOf owner = List.range (p.slotCount owner)
  owned : forall v, v ∈ p.vars -> forall f, v.owner = some f -> f < p.functions.length
  params : forall f, p.ParamsFirst f
  constants : forall c, c ∈ p.constants -> c.value.type = c.type
  defaults : forall v, v ∈ p.vars -> forall value, v.default = some value -> value.type = v.type

def HasVar (p : Program) (owners : List FunId) (id : VarId) : Prop :=
  id < p.vars.length ∧ forall f, (p.variableAt id).owner = some f -> f ∈ owners

def HasFunction (p : Program) (f : FunId) (arity : Nat) : Prop :=
  f < p.functions.length ∧ (p.function f).params.length = arity

end Program

/-- A mention that may stand where the given functions stand around.  What is declared
belongs to the innermost of them. -/
def Mention.Fits (p : Program) (owners : List FunId) : Mention -> Prop
  | .const id => id < p.constants.length
  | .declareConst id => id < p.constants.length
  | .read id => p.HasVar owners id
  | .declareVar id => id < p.vars.length ∧ (p.variableAt id).owner = owners.head?
  | .assign id => p.HasVar owners id
  | .await id => p.HasVar owners id
  | .declareFunction f => f < p.functions.length
  | .call f arity => p.HasFunction f arity
  | .start target f arity =>
      p.HasVar owners target ∧ p.HasFunction f arity ∧
        (p.function f).result = (p.variableAt target).type ∧ (p.function f).result ≠ .none

namespace Program

def AllFit (p : Program) (owners : List FunId) (mentions : List Mention) : Prop :=
  forall m, m ∈ mentions -> m.Fits p owners

/-- Functions around a place, innermost first: each is declared in the body of the next,
and the last one is declared among the given mentions. -/
inductive Enclosed (p : Program) (around : List Mention) : List FunId -> Prop where
  | outer {f : FunId} : .declareFunction f ∈ around -> Enclosed p around [f]
  | inner {f g : FunId} {outer : List FunId} : .declareFunction g ∈ p.mentionsOf f ->
      Enclosed p around (f :: outer) -> Enclosed p around (g :: f :: outer)

def ParamsExact (p : Program) (f : FunId) : Prop :=
  forall param, param ∈ (p.function f).params -> param.type ≠ .any

/-- A function has no body, or its body fits below the functions that enclose it, and its
parameters have types of their own. -/
def BodyFits (p : Program) (around : List Mention) (outermost : List FunId) (f : FunId) : Prop :=
  (p.function f).isNative = true ∨
    p.ParamsExact f ∧ exists outer, p.Enclosed around (f :: outer) ∧
      p.AllFit (f :: outer ++ outermost) (p.mentionsOf f)

def hasGlobal (p : Program) : Global -> Prop
  | .const id => id < p.constants.length
  | .var id => id < p.vars.length ∧ (p.variableAt id).owner = none
  | .function f => f < p.functions.length

end Program

def Stmt.global? : Stmt -> Option Global
  | .constDecl _ id => some (.const id)
  | .varDecl _ id _ => some (.var id)
  | .funDecl _ f => some (.function f)
  | .async _ target _ _ => some (.var target)
  | _ => none

/-- The globals behind statements of the outermost scope.  The target of an async
statement is declared by it unless it was declared before. -/
def listGlobals : List Global -> List Stmt -> List Global
  | listed, [] => listed
  | listed, s :: rest => listGlobals (listed ++ s.global?.toList.filter (· ∉ listed)) rest

namespace Program

structure WellFormed (p : Program) : Prop where
  tables : p.Tables
  root : p.AllFit [] (Stmt.listMentions p.root)
  bodies : forall f, f < p.functions.length -> p.BodyFits (Stmt.listMentions p.root) [] f
  globals : forall g, g ∈ p.globals -> p.hasGlobal g
  names : (p.globals.map p.globalName).Nodup

/-!
# Names of the outermost scope
-/

theorem findGlobal?_eq_some_iff {p : Program} (hnames : (p.globals.map p.globalName).Nodup)
    {α : Type} {name : String} {kind? : Global -> Option α} {entry : α} :
    p.findGlobal? name kind? = some entry <->
      exists g, g ∈ p.globals ∧ p.globalName g = name ∧ kind? g = some entry := by
  constructor
  · intro h
    obtain ⟨g, hg, hentry⟩ := List.exists_of_findSome?_eq_some h
    by_cases hname : p.globalName g = name
    · rw [if_pos hname] at hentry
      exact ⟨g, hg, hname, hentry⟩
    · rw [if_neg hname] at hentry
      cases hentry
  · rintro ⟨g, hg, hname, hentry⟩
    cases hfound : p.findGlobal? name kind? with
    | none =>
        have hnone := List.findSome?_eq_none_iff.mp hfound g hg
        rw [if_pos hname, hentry] at hnone
        cases hnone
    | some found =>
        obtain ⟨g', hg', hfound⟩ := List.exists_of_findSome?_eq_some hfound
        by_cases hname' : p.globalName g' = name
        · rw [if_pos hname'] at hfound
          cases List.inj_on_of_nodup_map hnames hg' hg (hname'.trans hname.symm)
          exact hfound.symm.trans hentry
        · rw [if_neg hname'] at hfound
          cases hfound

/-- Each name of the outermost scope is found as what it was declared. -/
theorem WellFormed.findGlobal {p : Program} (h : p.WellFormed) (name : String) :
    (forall id, p.globalConstant? name = some id <->
      .const id ∈ p.globals ∧ (p.constant id).name = name) ∧
    (forall id, p.globalVariable? name = some id <->
      .var id ∈ p.globals ∧ (p.variableAt id).name = name) ∧
    forall f, p.globalFunction? name = some f <->
      .function f ∈ p.globals ∧ (p.function f).name = name := by
  refine ⟨fun id => ?_, fun id => ?_, fun f => ?_⟩
  all_goals
    refine (findGlobal?_eq_some_iff h.names).trans ⟨?_, fun ⟨hg, hname⟩ => ⟨_, hg, hname, rfl⟩⟩
    rintro ⟨g, hg, hname, hentry⟩
    cases g <;> cases hentry
    exact ⟨hg, hname⟩

/-!
# What fits keeps fitting
-/

section Grows

variable {q p : Program} (h : q.Grows p)

include h

theorem Grows.hasVar {owners : List FunId} {id : VarId} (hid : q.HasVar owners id) :
    p.HasVar owners id := by
  refine ⟨h.vars_lt hid.1, ?_⟩
  rw [h.variableAt hid.1]
  exact hid.2

theorem Grows.hasFunction {f : FunId} {arity : Nat} (hf : q.HasFunction f arity) :
    p.HasFunction f arity := by
  refine ⟨h.functions_lt hf.1, ?_⟩
  rw [h.params hf.1]
  exact hf.2

theorem Grows.fits {owners : List FunId} {m : Mention} (hm : m.Fits q owners) :
    m.Fits p owners := by
  cases m with
  | const id => exact h.constants_lt hm
  | declareConst id => exact h.constants_lt hm
  | read id => exact h.hasVar hm
  | declareVar id =>
      refine ⟨h.vars_lt hm.1, ?_⟩
      rw [h.variableAt hm.1]
      exact hm.2
  | assign id => exact h.hasVar hm
  | await id => exact h.hasVar hm
  | declareFunction f => exact h.functions_lt hm
  | call f arity => exact h.hasFunction hm
  | start target f arity =>
      rcases hm with ⟨htarget, hf, hresult, hsome⟩
      refine ⟨h.hasVar htarget, h.hasFunction hf, ?_, ?_⟩
      · rw [h.result hf.1, h.variableAt htarget.1]
        exact hresult
      · rw [h.result hf.1]
        exact hsome

theorem Grows.allFit {owners : List FunId} {mentions : List Mention}
    (hfit : q.AllFit owners mentions) : p.AllFit owners mentions :=
  fun m hm => h.fits (hfit m hm)

theorem Grows.mentionsOf {f : FunId} (hf : f < q.functions.length) :
    p.mentionsOf f = q.mentionsOf f := by
  rw [Program.mentionsOf, Program.mentionsOf, Program.bodyOf, Program.bodyOf, h.body hf]

end Grows

theorem allFit_append {p : Program} {owners : List FunId} {ms ms' : List Mention} :
    p.AllFit owners (ms ++ ms') <-> p.AllFit owners ms ∧ p.AllFit owners ms' :=
  admitted_append

theorem allFit_cons {p : Program} {owners : List FunId} {m : Mention} {ms : List Mention} :
    p.AllFit owners (m :: ms) <-> m.Fits p owners ∧ p.AllFit owners ms :=
  admitted_cons

theorem allFit_nil {p : Program} {owners : List FunId} : p.AllFit owners [] :=
  admitted_nil

theorem lt_of_body {p : Program} {f : FunId} {block : Block}
    (h : (p.function f).body = some block) : f < p.functions.length := by
  by_cases hf : f < p.functions.length
  · exact hf
  · have hmissing : p.function f = default := by
      rw [function, List.getD_eq_getElem?_getD, List.getElem?_eq_none (Nat.le_of_not_lt hf)]
      rfl
    rw [hmissing] at h
    cases h

theorem lt_of_mem_mentionsOf {p : Program} {f : FunId} {m : Mention} (hm : m ∈ p.mentionsOf f) :
    f < p.functions.length := by
  cases hblock : (p.function f).body with
  | some block => exact lt_of_body hblock
  | none =>
      rw [mentionsOf, bodyOf, hblock] at hm
      cases hm

theorem Enclosed.grow {q p : Program} {around around' : List Mention} {chain : List FunId}
    (h : q.Enclosed around chain) (hgrows : q.Grows p) (haround : around ⊆ around') :
    p.Enclosed around' chain := by
  induction h with
  | outer hf => exact .outer (haround hf)
  | inner hg _ ih =>
      rw [← hgrows.mentionsOf (lt_of_mem_mentionsOf hg)] at hg
      exact .inner hg ih

theorem BodyFits.grow {q p : Program} {around around' : List Mention} {outermost : List FunId}
    {f : FunId} (h : q.BodyFits around outermost f) (hf : f < q.functions.length)
    (hgrows : q.Grows p) (haround : around ⊆ around') : p.BodyFits around' outermost f := by
  rcases h with hnative | ⟨hexact, outer, henclosed, hfit⟩
  · refine .inl ?_
    rw [Function.isNative, hgrows.body hf]
    exact hnative
  · refine .inr ⟨?_, outer, henclosed.grow hgrows haround, ?_⟩
    · rw [ParamsExact, hgrows.params hf]
      exact hexact
    · rw [hgrows.mentionsOf hf]
      exact hgrows.allFit hfit

/-!
# A function that gets its body
-/

section SetBody

variable {p : Program} {f : FunId} (hf : f < p.functions.length) (body : Block)

include hf

theorem function_setBody (g : FunId) :
    (p.setBody f body).function g =
      if g = f then { p.function f with body := some body } else p.function g :=
  function_setFunction p hf _ g

theorem mentionsOf_setBody_self : (p.setBody f body).mentionsOf f = Stmt.listMentions body.body := by
  rw [mentionsOf, bodyOf, function_setBody hf, if_pos rfl]

theorem mentionsOf_setBody_ne {g : FunId} (hg : g ≠ f) :
    (p.setBody f body).mentionsOf g = p.mentionsOf g := by
  rw [mentionsOf, bodyOf, function_setBody hf, if_neg hg]
  rfl

theorem HasFunction.setBody {g : FunId} {arity : Nat} (h : p.HasFunction g arity) :
    (p.setBody f body).HasFunction g arity := by
  refine ⟨Nat.lt_of_lt_of_eq h.1 (entries_setBody p f body .function).symm, ?_⟩
  rw [function_setBody hf]
  by_cases hg : g = f
  · rw [if_pos hg, ← hg]
    exact h.2
  · rw [if_neg hg]
    exact h.2

theorem result_setBody (g : FunId) :
    ((p.setBody f body).function g).result = (p.function g).result := by
  rw [function_setBody hf]
  by_cases hg : g = f
  · rw [if_pos hg, hg]
  · rw [if_neg hg]

theorem AllFit.setBody {owners : List FunId} {ms : List Mention} (h : p.AllFit owners ms) :
    (p.setBody f body).AllFit owners ms := by
  intro m hm
  have hfit := h m hm
  cases m with
  | call g arity => exact HasFunction.setBody hf body hfit
  | start target g arity =>
      rcases hfit with ⟨htarget, hfunction, hresult⟩
      refine ⟨htarget, hfunction.setBody hf body, ?_⟩
      rw [result_setBody hf]
      exact hresult
  | declareFunction g => exact Nat.lt_of_lt_of_eq hfit (entries_setBody p f body .function).symm
  | const id => exact hfit
  | declareConst id => exact hfit
  | read id => exact hfit
  | declareVar id => exact hfit
  | assign id => exact hfit
  | await id => exact hfit

theorem Enclosed.setBody {chain : List FunId} (hpending : p.mentionsOf f = [])
    (h : p.Enclosed (Stmt.listMentions body.body) chain) :
    (p.setBody f body).Enclosed [.declareFunction f] (chain ++ [f]) := by
  induction h with
  | outer hg =>
      rw [← mentionsOf_setBody_self hf body] at hg
      exact .inner hg (.outer (List.mem_singleton.mpr rfl))
  | @inner encloser g outer hg _ ih =>
      have hne : encloser ≠ f := by
        intro heq
        rw [heq, hpending] at hg
        cases hg
      rw [← mentionsOf_setBody_ne hf body hne] at hg
      exact .inner hg ih

theorem BodyFits.setBody {outermost : List FunId} {g : FunId} (hg : g ≠ f)
    (hpending : p.mentionsOf f = [])
    (h : p.BodyFits (Stmt.listMentions body.body) (f :: outermost) g) :
    (p.setBody f body).BodyFits [.declareFunction f] outermost g := by
  rcases h with hnative | ⟨hexact, outer, henclosed, hfit⟩
  · refine .inl ?_
    rw [function_setBody hf, if_neg hg]
    exact hnative
  · refine .inr ⟨?_, outer ++ [f], henclosed.setBody hf body hpending, ?_⟩
    · rw [ParamsExact, function_setBody hf, if_neg hg]
      exact hexact
    · rw [mentionsOf_setBody_ne hf body hg, List.cons_append, List.append_assoc]
      exact hfit.setBody hf body

theorem bodyFits_setBody_self {outermost : List FunId} (hexact : p.ParamsExact f)
    (h : p.AllFit (f :: outermost) (Stmt.listMentions body.body)) :
    (p.setBody f body).BodyFits [.declareFunction f] outermost f := by
  refine .inr ⟨?_, [], .outer (List.mem_singleton.mpr rfl), ?_⟩
  · rw [ParamsExact, function_setBody hf, if_pos rfl]
    exact hexact
  · rw [mentionsOf_setBody_self hf]
    exact h.setBody hf body

end SetBody

/-!
# The tables of growing programs
-/

theorem tables_empty : Program.empty.Tables where
  slots := by
    intro owner
    cases owner <;> rfl
  owned := by simp [Program.empty]
  params := by
    intro f i param hparam
    cases hparam
  constants := by simp [Program.empty]
  defaults := by simp [Program.empty]

theorem ParamsFirst.grow {q p : Program} {f : FunId} (h : q.ParamsFirst f)
    (hvars : q.vars <+: p.vars) (hparams : (p.function f).params = (q.function f).params) :
    p.ParamsFirst f := by
  intro i param hparam
  rw [hparams] at hparam
  rcases h i param hparam with ⟨hlt, hfirst⟩
  have hvar : p.variableAt param.var = q.variableAt param.var := by
    rcases hvars with ⟨rest, hrest⟩
    simp only [variableAt, ← hrest, List.getD_eq_getElem?_getD, List.getElem?_append_left hlt]
  rw [hvar]
  exact ⟨Nat.lt_of_lt_of_le hlt hvars.length_le, hfirst⟩

section Slots

variable (p : Program) (owner : Option FunId) (name : String) (type : ValueType)
  (default : Option Value)

theorem slotsOf_addVar (other : Option FunId) :
    (p.addVar owner name type default).slotsOf other =
      p.slotsOf other ++ if owner = other then [p.slotCount owner] else [] := by
  by_cases hother : owner = other <;>
    simp [slotsOf, addVar, List.filter_append, hother]

theorem slotCount_addVar (howner : forall f, owner = some f -> f < p.functions.length)
    (other : Option FunId) :
    (p.addVar owner name type default).slotCount other =
      p.slotCount other + if owner = other then 1 else 0 := by
  cases owner with
  | none =>
      cases other with
      | none => rfl
      | some g => rfl
  | some f =>
      cases other with
      | none => rfl
      | some g =>
          have hfunction : (p.addVar (some f) name type default).function g =
              if g = f then { p.function f with localCount := (p.function f).localCount + 1 }
              else p.function g :=
            function_setFunction p (howner f rfl) _ g
          show ((p.addVar (some f) name type default).function g).localCount = _
          rw [hfunction]
          by_cases hg : g = f
          · subst hg
            simp [slotCount]
          · have hne : f ≠ g := fun heq => hg heq.symm
            simp [slotCount, hg, hne]

theorem params_addVar (f : FunId) :
    ((p.addVar owner name type default).function f).params = (p.function f).params := by
  by_cases hf : f < p.functions.length
  · exact (grows_addVar p owner name type default).params hf
  · have hlength : (p.addVar owner name type default).functions.length = p.functions.length :=
      entries_addVar p owner name type default .function
    have hout : p.functions.length ≤ f := Nat.le_of_not_lt hf
    rw [function, function, List.getD_eq_getElem?_getD, List.getD_eq_getElem?_getD,
      List.getElem?_eq_none hout, List.getElem?_eq_none (hlength ▸ hout)]

end Slots

namespace Tables

variable {p : Program} (h : p.Tables)

include h

theorem addGlobals (gs : List Global) : (p.addGlobals gs).Tables where
  slots := by
    intro owner
    cases owner with
    | none => exact h.slots none
    | some f => exact h.slots (some f)
  owned := h.owned
  params := h.params
  constants := h.constants
  defaults := h.defaults

theorem addConstant {c : Constant} (hc : c.value.type = c.type) : (p.addConstant c).Tables where
  slots := by
    intro owner
    cases owner with
    | none => exact h.slots none
    | some f => exact h.slots (some f)
  owned := h.owned
  params := h.params
  constants := by
    intro c' hc'
    rcases List.mem_append.mp hc' with hc' | hc'
    · exact h.constants c' hc'
    · rw [List.mem_singleton] at hc'
      subst hc'
      exact hc
  defaults := h.defaults

theorem addVar {owner : Option FunId} {type : ValueType} {default : Option Value} (name : String)
    (howner : forall f, owner = some f -> f < p.functions.length)
    (hdefault : forall value, default = some value -> value.type = type) :
    (p.addVar owner name type default).Tables where
  slots := by
    intro other
    rw [slotsOf_addVar, slotCount_addVar p owner name type default howner, h.slots]
    by_cases hother : owner = other
    · rw [if_pos hother, if_pos hother, hother, List.range_succ]
    · rw [if_neg hother, if_neg hother, List.append_nil]
      rfl
  owned := by
    intro v hv f hf
    have hgrows := grows_addVar p owner name type default
    rcases List.mem_append.mp hv with hv | hv
    · exact hgrows.functions_lt (h.owned v hv f hf)
    · rw [List.mem_singleton] at hv
      subst hv
      exact hgrows.functions_lt (howner f hf)
  params := by
    intro f
    exact (h.params f).grow (grows_addVar p owner name type default).vars
      (params_addVar p owner name type default f)
  constants := by
    intro c hc
    cases owner <;> exact h.constants c hc
  defaults := by
    intro v hv
    rcases List.mem_append.mp hv with hv | hv
    · exact h.defaults v hv
    · rw [List.mem_singleton] at hv
      subst hv
      exact hdefault

theorem addFunction (name : String) (result : ValueType) (body : Option Block) :
    (p.addFunction name result body).Tables where
  slots := by
    intro owner
    refine (h.slots owner).trans (congrArg List.range ?_)
    cases owner with
    | none => rfl
    | some f =>
        show (p.function f).localCount = ((p.addFunction name result body).function f).localCount
        rw [function_addFunction]
        by_cases hf : f = p.functions.length
        · have hmissing : p.function p.functions.length = default := by
            simp [function]
          rw [if_pos hf, hf, hmissing]
          rfl
        · rw [if_neg hf]
  owned := fun v hv f hf =>
    (grows_addFunction p name result body).functions_lt (h.owned v hv f hf)
  params := by
    intro f i param hparam
    rw [function_addFunction] at hparam
    by_cases hf : f = p.functions.length
    · rw [if_pos hf] at hparam
      cases hparam
    · rw [if_neg hf] at hparam
      exact h.params f i param hparam
  constants := h.constants
  defaults := h.defaults

theorem setFunction {f : FunId} {entry : Function} (hf : f < p.functions.length)
    (hslots : entry.localCount = (p.function f).localCount)
    (hparams : forall i param, entry.params[i]? = some param ->
      param.var < p.vars.length ∧ (p.variableAt param.var).owner = some f ∧
        (p.variableAt param.var).slot = i ∧ (p.variableAt param.var).type = param.type) :
    (p.setFunction f entry).Tables where
  slots := by
    intro owner
    refine (h.slots owner).trans (congrArg List.range ?_)
    cases owner with
    | none => rfl
    | some g =>
        show (p.function g).localCount = ((p.setFunction f entry).function g).localCount
        rw [function_setFunction p hf]
        by_cases hg : g = f
        · rw [if_pos hg, hg, hslots]
        · rw [if_neg hg]
  owned := by
    intro v hv g hg
    show g < (p.functions.set f entry).length
    rw [List.length_set]
    exact h.owned v hv g hg
  params := by
    intro g i param hparam
    rw [function_setFunction p hf] at hparam
    by_cases hg : g = f
    · rw [if_pos hg] at hparam
      subst hg
      exact hparams i param hparam
    · rw [if_neg hg] at hparam
      exact h.params g i param hparam
  constants := h.constants
  defaults := h.defaults

theorem setBody {f : FunId} (hf : f < p.functions.length) (body : Block) :
    (p.setBody f body).Tables :=
  h.setFunction hf rfl (h.params f)

end Tables
end Program
end Scriptlet
