import Scriptlet.Proofs.Evaluation.Preservation
import Scriptlet.Proofs.Program.Types

/-!
# Types of results

On a typed machine whatever an expression evaluates to has the type of the expression, so
an expression without a type is never evaluated to its end.  A statement that ends well has
passed its own checks, and it has passed them in the types.
-/

namespace Scriptlet

section Rules

variable {σ ρ α : Type} {inv : Machine σ ρ -> Prop}

theorem Keeps.strengthen {good also : α -> Prop} {x : EvalOf ρ σ α} (h : Keeps inv x good)
    (halso : forall m a m', inv m -> x m = .done a m' -> also a) : Keeps inv x also := by
  intro m hm
  have hm' := h m hm
  cases houtcome : x m with
  | done a m' =>
      rw [houtcome] at hm'
      exact ⟨halso m a m' hm houtcome, hm'.2⟩
  | failed e m' =>
      rw [houtcome] at hm'
      exact hm'
  | unfinished => trivial

end Rules

/-!
# Reading and storing
-/

section Variables

variable {σ : Type} {p : Program}

theorem SlotsTyped.type_at {owner : Option FunId} {slots : List (Option Value)}
    (h : SlotsTyped p owner slots) (htables : p.Tables) {id : VarId} {slot : Nat}
    (hid : p.Owns owner slot id) {v : Value} (hv : slots.getD slot none = some v) :
    v.type = (p.variableAt id).type := by
  have hstored : slots[slot]? = some (some v) := by
    rw [List.getD_eq_getElem?_getD] at hv
    cases hslot : slots[slot]? with
    | none =>
        rw [hslot] at hv
        cases hv
    | some stored =>
        rw [hslot] at hv
        exact congrArg some hv
  rcases h.typed _ v hstored with ⟨other, hother, htype⟩
  rw [htables.owns_unique hid hother]
  exact htype

theorem Machine.Typed.type_read {m : Machine σ} (h : m.Typed p) (htables : p.Tables) {id : VarId}
    (hid : id < p.vars.length) {v : Value} (hv : m.read p id = some v) :
    v.type = (p.variableAt id).type := by
  unfold Machine.read at hv
  cases howner : (p.variableAt id).owner with
  | none =>
      simp only [howner] at hv
      exact h.globals.type_at htables ⟨hid, howner, rfl⟩ hv
  | some f =>
      simp only [howner] at hv
      rcases Option.bind_eq_some_iff.mp hv with ⟨frame, hframe, hslot⟩
      have hof : frame.owner = f := by
        simpa using List.find?_some hframe
      have htyped := h.frames frame (List.mem_of_find?_eq_some hframe)
      exact htyped.slots.type_at htables ⟨hid, hof ▸ howner, rfl⟩ hslot

theorem keeps_readVar_type (htables : p.Tables) {id : VarId} (hid : id < p.vars.length)
    (pos : Pos) :
    Keeps (Machine.Typed p) (Eval.readVar p id pos : Eval σ Value)
      fun v => v.type = (p.variableAt id).type := by
  apply (keeps_readVar id pos).strengthen
  intro m v m' hm hread
  unfold Eval.readVar at hread
  cases hvalue : m.read p id with
  | none =>
      rw [hvalue] at hread
      cases hread
  | some w =>
      rw [hvalue] at hread
      cases hread
      exact hm.type_read htables hid hvalue

theorem keeps_operator_type {inv : Machine σ -> Prop} (pos : Pos) {t : Option ValueType}
    {result : Except OpError Value} (h : FollowsType t result) :
    Keeps inv (Eval.operator pos result : Eval σ Value) fun v => t = some v.type := by
  cases result with
  | ok v => exact keeps_pure h
  | error e => exact keeps_failAt _ pos

theorem type_of_writeVar {id : VarId} {v : Value} {pos : Pos} {m m' : Machine σ}
    (h : Eval.writeVar p id v pos m = .done () m') : v.type = (p.variableAt id).type := by
  unfold Eval.writeVar at h
  by_cases htype : (p.variableAt id).type = v.type
  · exact htype.symm
  · simp only [htype, if_false] at h
    cases h

end Variables

/-!
# Calls
-/

theorem yieldType_of_invoke {σ : Type} {l : Loaded σ} {fuel : Nat} {f : FunId}
    {values : List Value} {pos : Pos} {m m' : Machine σ} {result : Option Value}
    (h : l.invoke fuel f values pos m = .done result m') :
    yieldType result = (l.program.function f).result := by
  have hchecked : forall (found : Option Value) (m : Machine σ),
      Eval.checkResult (l.program.function f) pos found m = .done result m' ->
      yieldType result = (l.program.function f).result := by
    intro found m hcheck
    unfold Eval.checkResult at hcheck
    split at hcheck
    · rename_i htype
      cases hcheck
      exact htype
    · cases hcheck
  cases fuel with
  | zero => cases h
  | succ fuel =>
      unfold Loaded.invoke at h
      cases hblock : (l.program.function f).body with
      | none =>
          simp only [hblock, Run.bind_apply] at h
          split at h
          · split at h
            · rename_i hnone
              cases h
              exact hnone.symm
            · exact hchecked _ _ h
          · cases h
          · cases h
      | some block =>
          simp only [hblock, Run.bind_apply] at h
          split at h
          · exact hchecked _ _ h
          · cases h
          · cases h

section Expressions

variable {σ : Type} {l : Loaded σ}

theorem keeps_invoke_type (hwell : l.program.WellFormed) (fuel : Nat) {f : FunId}
    (hf : f < l.program.functions.length) {values : List Value}
    (haccepted : Accepted (l.program.function f).params values) (pos : Pos) :
    Keeps (Machine.Typed l.program) (l.invoke fuel f values pos)
      fun result => forall v, result = some v -> v.type = (l.program.function f).result := by
  apply (callsKeepTyped_invoke hwell fuel f values pos hf haccepted).strengthen
  intro m result m' _ hcall v hv
  rw [hv] at hcall
  exact yieldType_of_invoke hcall

/-!
# Expressions
-/

mutual

theorem keeps_expr_type (hwell : l.program.WellFormed) (fuel : Nat) : forall e : Expr,
    l.program.Fit e.mentions ->
    Keeps (Machine.Typed l.program) (Eval.expr l.program (l.invoke fuel) e)
      fun v => e.type? l.program = some v.type
  | .literal _ _, _ => keeps_pure rfl
  | .const _ _, _ => keeps_pure rfl
  | .var pos id, hfit => by
      rcases Admitted.head hfit with ⟨owners, hread⟩
      apply (keeps_readVar_type hwell.tables hread.1 pos).mono
      intro v hv
      exact congrArg some hv.symm
  | .unary pos op operand, hfit => by
      apply (keeps_expr_type hwell fuel operand hfit).bind
      intro v hv
      apply (keeps_operator_type pos (op.followsType_apply v)).mono
      intro w hw
      rw [Expr.type?, hv]
      exact hw
  | .binary pos op left right, hfit => by
      apply (keeps_expr_type hwell fuel left hfit.left).bind
      intro v hv
      apply (keeps_expr_type hwell fuel right hfit.right).bind
      intro w hw
      apply (keeps_operator_type pos (op.followsType_apply v w)).mono
      intro result hresult
      rw [Expr.type?, hv, hw]
      exact hresult
  | .call pos f args, hfit => by
      apply (keeps_arguments_type hwell fuel f pos (l.program.function f).params args
        hfit.tail).bind
      intro values hvalues
      apply (keeps_invoke_type hwell fuel (Program.Fit.callee hfit) hvalues.1 pos).bind
      intro result hresult
      cases result with
      | some v =>
          apply keeps_pure
          rw [Expr.type?, if_pos hvalues.2, hresult v rfl]
      | none => exact keeps_mismatch _ _ _ pos

theorem keeps_arguments_type (hwell : l.program.WellFormed) (fuel : Nat) (f : FunId) (pos : Pos) :
    forall (params : List Param) (args : List Expr), l.program.Fit (Expr.listMentions args) ->
    Keeps (Machine.Typed l.program) (Eval.arguments l.program (l.invoke fuel) f pos params args)
      fun values => Accepted params values ∧ Expr.argumentsFit l.program params args = true
  | param :: params, arg :: args, hfit => by
      apply (keeps_expr_type hwell fuel arg hfit.left).bind
      intro v hv
      apply (keeps_checkArgument f param v pos).bind
      intro _ haccepts
      apply (keeps_arguments_type hwell fuel f pos params args hfit.right).bind
      intro values hvalues
      apply keeps_pure
      rw [Expr.argumentsFit_cons hv, haccepts, hvalues.2]
      exact ⟨accepted_cons haccepts hvalues.1, rfl⟩
  | [], [], _ => keeps_pure ⟨accepted_of_nil (.inl rfl), rfl⟩
  | [], _ :: _, _ => keeps_pure ⟨accepted_of_nil (.inl rfl), rfl⟩
  | _ :: _, [], _ => keeps_pure ⟨accepted_of_nil (.inr rfl), rfl⟩

end

end Expressions

/-!
# Statements
-/

section Statements

variable {σ : Type} {l : Loaded σ} (hwell : l.program.WellFormed) (fuel : Nat)

include hwell

theorem keeps_condition_type (place : TypedPlace) {cond : Expr}
    (hfit : l.program.Fit cond.mentions) :
    Keeps (Machine.Typed l.program)
      (Eval.condition l.program (l.invoke fuel) place cond)
      fun _ => cond.type? l.program = some .bool := by
  apply (keeps_expr_type hwell fuel cond hfit).bind
  intro v hv
  cases v with
  | bool b => exact keeps_pure hv
  | int n => exact keeps_mismatch _ _ _ _
  | float x => exact keeps_mismatch _ _ _ _

theorem keeps_store_type {mention : Mention} {value : Expr}
    (hfit : l.program.Fit (mention :: value.mentions)) {id : VarId}
    (hstored : mention.stored? = some id) (pos : Pos) :
    Keeps (Machine.Typed l.program) (do
      let v ← Eval.expr l.program (l.invoke fuel) value
      Eval.writeVar l.program id v pos
      return Flow.next)
      fun _ => value.type? l.program = some (l.program.variableAt id).type := by
  apply (keeps_expr_type hwell fuel value hfit.tail).bind
  intro v hv
  have hwrite := keeps_writeVar (invariant_typed hwell fuel) hfit.head hstored v pos
  have htype := hwrite.strengthen fun _ _ _ _ => type_of_writeVar
  apply htype.bind
  intro _ hsame
  apply keeps_pure
  rw [← hsame]
  exact hv

theorem keeps_stmt_checks (s : Stmt) (hfit : l.program.Fit s.mentions) :
    Keeps (Machine.Typed l.program) (Eval.stmt l.program fuel (l.invoke fuel) s)
      fun _ => s.Checks l.program := by
  have hkeeps := invariant_typed hwell fuel
  cases s with
  | varDecl pos id init =>
      cases init with
      | none => exact keeps_pure trivial
      | some init => exact keeps_store_type hwell fuel hfit rfl pos
  | assign pos id value => exact keeps_store_type hwell fuel hfit rfl pos
  | ifThen pos cond head body =>
      apply (keeps_condition_type hwell fuel .ifCondition hfit.left).bind
      intro b hcond
      apply Keeps.ite
      · intro _
        exact (keeps_stmts hkeeps fuel body hfit.right).mono fun _ _ => hcond
      · intro _
        exact keeps_pure hcond
  | whileDo pos cond head body =>
      have hcond := keeps_condition_type hwell fuel .whileCondition hfit.left
      have hbody := keeps_stmts hkeeps fuel body hfit.right
      cases fuel with
      | zero => exact fun _ _ => trivial
      | succ limit =>
          apply hcond.bind
          intro b hbool
          have hagain := hkeeps.acts.keeps_loopWithin (hcond.mono fun _ _ => trivial) hbody limit
          apply Keeps.ite
          · intro _
            apply hbody.bind
            intro flow _
            cases flow with
            | next => exact hagain.mono fun _ _ => hbool
            | returned v => exact keeps_pure hbool
          · intro _
            exact keeps_pure hbool
  | call pos f args =>
      apply (keeps_arguments_type hwell fuel f pos (l.program.function f).params args
        hfit.tail).bind
      intro values hvalues
      apply (hkeeps.calls hfit.head hvalues.1).bind
      intro _ _
      exact keeps_pure hvalues.2
  | _ => exact (keeps_stmt hkeeps fuel _ hfit).mono fun _ _ => trivial

end Statements
end Scriptlet
