import Scriptlet.Proofs.Evaluation.Completion
import Scriptlet.Proofs.Evaluation.Unassigned
import Scriptlet.Proofs.Linking.Exports

/-!
# Reads before the first assignment

The slots of a frame begin empty but for the parameters, and so do the slots of the globals
that have no value from outside.  Only what is stored into a variable fills its slot.  As long
as control passes nothing that may do so, reading the variable fails.

Declarations play no part in this.  One without an initializer that is executed again, in
another round of a loop, leaves in the slot what was stored there before.
-/

namespace Scriptlet

/-!
# Declarations without initializers
-/

def Stmt.isBare : Stmt -> Bool
  | .varDecl _ _ none => true
  | _ => false

mutual

def Stmt.dropBare : Stmt -> Stmt
  | .block head body => .block head (Stmt.listDropBare body)
  | .ifThen pos cond head body => .ifThen pos cond head (Stmt.listDropBare body)
  | .whileDo pos cond head body => .whileDo pos cond head (Stmt.listDropBare body)
  | s => s

def Stmt.listDropBare : List Stmt -> List Stmt
  | [] => []
  | s :: rest =>
      if s.isBare then Stmt.listDropBare rest else s.dropBare :: Stmt.listDropBare rest

end

section DropBare

variable {σ : Type} (p : Program) (fuel : Nat) (invoke : Invoke σ)

mutual

theorem stmt_dropBare : forall s : Stmt,
    Eval.stmt p fuel invoke s.dropBare = Eval.stmt p fuel invoke s
  | .block _ body => stmts_dropBare body
  | .ifThen _ cond _ body => by
      rw [Stmt.dropBare, Eval.stmt, Eval.stmt, stmts_dropBare body]
  | .whileDo _ cond _ body => by
      rw [Stmt.dropBare, Eval.stmt, Eval.stmt, stmts_dropBare body]
  | .constDecl _ _ => rfl
  | .varDecl _ _ _ => rfl
  | .funDecl _ _ => rfl
  | .ret _ _ => rfl
  | .assign _ _ _ => rfl
  | .call _ _ _ => rfl
  | .async _ _ _ _ => rfl
  | .await _ _ => rfl

/-- Declarations without an initializer do nothing, the first time and every other time. -/
theorem stmts_dropBare : forall body : List Stmt,
    Eval.stmts p fuel invoke (Stmt.listDropBare body) = Eval.stmts p fuel invoke body
  | [] => rfl
  | s :: rest => by
      have hrest := stmts_dropBare rest
      rw [Stmt.listDropBare]
      cases hbare : s.isBare with
      | true =>
          unfold Stmt.isBare at hbare
          split at hbare
          · rw [if_pos rfl, hrest]
            rfl
          · cases hbare
      | false =>
          rw [if_neg Bool.false_ne_true, Eval.stmts, stmt_dropBare s, hrest]
          rfl

end
end DropBare

def EvalWork.passed : EvalWork -> EvalWork -> List Mention
  | .stmts (s :: _), .stmts _ => Stmt.listMentions (Stmt.listDropBare [s])
  | .stmt (.ifThen _ cond _ _), .stmts _ => cond.mentions
  | .rounds cond _ _, .stmts _ => cond.mentions
  | .rounds cond body _, .rounds _ _ _ =>
      cond.mentions ++ Stmt.listMentions (Stmt.listDropBare body)
  | _, _ => []

namespace EvalPoint

variable {σ : Type} {l : Loaded σ} {id : VarId} {a b : EvalPoint σ}

theorem Inside.keeps {good : Mention -> Prop} {inv : Machine σ -> Prop}
    (hinv : Invariant l.program (l.invoke a.fuel) good inv) (h : a.Inside l b)
    (hpassed : Admitted good (a.work.passed b.work)) (ha : inv a.machine) : inv b.machine := by
  cases h with
  | first => exact ha
  | block => exact ha
  | loop => exact ha
  | @next fuel s rest m m' hs =>
      have hkeeps := keeps_stmts hinv fuel (Stmt.listDropBare [s]) hpassed
      rw [stmts_dropBare] at hkeeps
      exact (hkeeps.of_done ha (Run.bind_done hs)).2
  | branch hcond => exact ((keeps_condition hinv _ hpassed).of_done ha hcond).2
  | round hcond => exact ((keeps_condition hinv _ hpassed).of_done ha hcond).2
  | @nextRound fuel cond body limit m m' m'' hcond hbody =>
      have htested := ((keeps_condition hinv _ hpassed.left).of_done ha hcond).2
      have hkeeps := keeps_stmts hinv fuel (Stmt.listDropBare body) hpassed.right
      rw [stmts_dropBare] at hkeeps
      exact (hkeeps.of_done htested hbody).2

abbrev Untouched (l : Loaded σ) (id : VarId) : EvalPoint σ -> EvalPoint σ -> Prop :=
  Relation.ReflTransGen fun a b =>
    a.Inside l b ∧ Admitted (Mention.Spares l.program id False) (a.work.passed b.work)

theorem Untouched.read (hwell : l.program.WellFormed) (hid : id < l.program.vars.length)
    (h : Untouched l id a b) : b.machine.read l.program id = a.machine.read l.program id := by
  induction h with
  | refl => rfl
  | tail _ hstep ih => exact hstep.1.keeps (invariant_read hwell hid _ _) hstep.2 ih

end EvalPoint

section Reads

variable {σ : Type} {l : Loaded σ} (hwell : l.program.WellFormed) {id : VarId}

theorem Eval.readVar_eq_failed {p : Program} {m : Machine σ} (h : m.read p id = none) (pos : Pos) :
    Eval.readVar p id pos m =
      .failed { cause := .uninitialized (p.variableAt id).name, pos := pos } m := by
  unfold Eval.readVar
  rw [h]
  rfl

theorem getD_fillSlots_other {p : Program} {n : Nat} {entries : List (Param × Value)}
    (h : forall entry, entry ∈ entries -> (p.variableAt entry.1.var).slot ≠ n)
    (slots : List (Option Value)) :
    (entries.foldl (fillSlot p) slots).getD n none = slots.getD n none := by
  induction entries generalizing slots with
  | nil => rfl
  | cons entry rest ih =>
      have hslot := h entry List.mem_cons_self
      rw [List.foldl_cons, ih fun other hother => h other (List.mem_cons_of_mem entry hother)]
      rw [fillSlot, List.getD_eq_getElem?_getD, List.getElem?_set_ne hslot,
        ← List.getD_eq_getElem?_getD]

theorem slot_callFrame {p : Program} (htables : p.Tables) {f : FunId}
    (howner : (p.variableAt id).owner = some f)
    (hlocal : forall param, param ∈ (p.function f).params -> param.var ≠ id) (values : List Value) :
    (Eval.callFrame p f values : Frame).slot (p.variableAt id).slot = none := by
  have hparams : forall entry, entry ∈ (p.function f).params.zip values ->
      (p.variableAt entry.1.var).slot ≠ (p.variableAt id).slot := by
    intro entry hentry hslot
    have hparam := (List.of_mem_zip hentry).1
    obtain ⟨i, hi⟩ := List.mem_iff_getElem?.mp hparam
    exact hlocal entry.1 hparam
      (htables.slot_inj (htables.params f i entry.1 hi).2.1 howner hslot)
  refine (getD_fillSlots_other hparams _).trans ?_
  rw [List.getD_eq_getElem?_getD, List.getElem?_replicate]
  split <;> rfl

include hwell

/-- In a call a variable of its own function is not read before something is stored into it,
unless it is a parameter. -/
theorem unassigned_read_fails {f : FunId} (howner : (l.program.variableAt id).owner = some f)
    (hlocal : forall param, param ∈ (l.program.function f).params -> param.var ≠ id)
    {fuel : Nat} {body : List Stmt} {values : List Value} {m : Machine σ} {point : EvalPoint σ}
    (h : EvalPoint.Untouched l id
      ⟨fuel, .stmts body, m.push (Eval.callFrame l.program f values)⟩ point) (pos : Pos) :
    Eval.readVar l.program id pos point.machine =
      .failed { cause := .uninitialized (l.program.variableAt id).name, pos := pos }
        point.machine := by
  apply Eval.readVar_eq_failed
  rw [h.read hwell (Program.lt_of_owner howner)]
  show (m.push (Eval.callFrame l.program f values)).read l.program id = none
  rw [m.read_push_local rfl howner]
  exact slot_callFrame hwell.tables howner hlocal values

/-- Nor is a global variable in a run, unless it was given a value from outside. -/
theorem unassigned_global_read_fails (hid : id < l.program.vars.length)
    (hglobal : (l.program.variableAt id).owner = none)
    (hdefault : (l.program.variableAt id).default = none) {fuel : Nat} {body : List Stmt} {host : σ}
    {point : EvalPoint σ}
    (h : EvalPoint.Untouched l id ⟨fuel, .stmts body, .initial l.program host⟩ point) (pos : Pos) :
    Eval.readVar l.program id pos point.machine =
      .failed { cause := .uninitialized (l.program.variableAt id).name, pos := pos }
        point.machine := by
  apply Eval.readVar_eq_failed
  have hvalue := Machine.globalValue_initial hwell.tables hid hglobal host
  rw [Machine.globalValue, hglobal, hdefault] at hvalue
  rw [h.read hwell hid]
  show Machine.read l.program (.initial l.program host) id = none
  rw [Machine.read, hglobal]
  exact hvalue

end Reads
end Scriptlet
