import Scriptlet.Proofs.Evaluation.Invariants
import Scriptlet.Proofs.Evaluation.Typing

/-!
# Execution keeps machines typed

Whatever is executed in a typed machine leaves a typed one, also where it ends with an
error.  Values are checked before they are stored: by assignments against the variable,
and by calls against the parameters, whose types are those of their variables.
-/

namespace Scriptlet

/-!
# Trees that fit somewhere
-/

def Mention.FitsSomewhere (p : Program) (m : Mention) : Prop :=
  exists owners, m.Fits p owners

namespace Program

abbrev Fit (p : Program) (ms : List Mention) : Prop :=
  Admitted (Mention.FitsSomewhere p) ms

variable {p : Program} {ms : List Mention}

theorem AllFit.fit {owners : List FunId} (h : p.AllFit owners ms) : p.Fit ms :=
  fun m hm => ⟨owners, h m hm⟩

theorem Fit.callee {f : FunId} {arity : Nat} (h : p.Fit (.call f arity :: ms)) :
    f < p.functions.length := by
  rcases h.head with ⟨owners, hcall⟩
  exact hcall.1

theorem Fit.started {target : VarId} {f : FunId} {arity : Nat}
    (h : p.Fit (.start target f arity :: ms)) : f < p.functions.length := by
  rcases h.head with ⟨owners, hstart⟩
  exact hstart.2.1.1

theorem lt_of_stored {m : Mention} (h : m.FitsSomewhere p) {id : VarId}
    (hstored : m.stored? = some id) : id < p.vars.length := by
  rcases h with ⟨owners, hfits⟩
  cases m with
  | declareVar other | assign other | await other =>
      cases hstored
      exact hfits.1
  | _ => cases hstored

theorem Fit.stored {m : Mention} (h : p.Fit (m :: ms)) {id : VarId}
    (hstored : m.stored? = some id) : id < p.vars.length :=
  lt_of_stored h.head hstored

theorem WellFormed.body (hwell : p.WellFormed) {f : FunId} {block : Block}
    (hblock : (p.function f).body = some block) :
    p.ParamsExact f ∧ p.Fit (Stmt.listMentions block.body) := by
  have hmentions := Program.mentionsOf_of_body hblock
  rcases hwell.bodies f (lt_of_body hblock) with hnative | ⟨hexact, outer, -, hfit⟩
  · simp [Function.isNative, hblock] at hnative
  · exact ⟨hexact, AllFit.fit (hmentions ▸ hfit)⟩

theorem WellFormed.fit (hwell : p.WellFormed) (f : FunId) : p.Fit (p.mentionsOf f) := by
  cases hblock : (p.function f).body with
  | none =>
      rw [mentionsOf, bodyOf, hblock]
      exact admitted_nil
  | some block =>
      rw [mentionsOf_of_body hblock]
      exact (hwell.body hblock).2

end Program

/-!
# Calls of a program
-/

section Calls

variable {σ : Type}

def CallsKeepTyped (p : Program) (invoke : Invoke σ) : Prop :=
  forall f values pos, f < p.functions.length -> Accepted (p.function f).params values ->
    KeepsAll (Machine.Typed p) (invoke f values pos)

theorem typed_invariant {p : Program} {invoke : Invoke σ} (h : CallsKeepTyped p invoke) :
    Invariant p invoke (Mention.FitsSomewhere p) (Machine.Typed p) where
  stores := by
    intro mention id v m m' hfits hstored htype hm hstore
    exact hm.store? (Program.lt_of_stored hfits hstored) htype hstore
  starts := by
    intro target f arity task m m' hfits htarget hm hupdate
    rcases hfits with ⟨owners, hstart⟩
    have htask : task.target < p.vars.length := htarget ▸ hstart.1.1
    exact hm.updateTasks? (fun _ htasks => htasks.insert htask) hupdate
  awaits := by
    intro target m m' _ hm hupdate
    exact hm.updateTasks? (fun _ htasks => htasks.erase target) hupdate
  calls := by
    intro f arity values pos hfits hvalues
    rcases hfits with ⟨owners, hcall⟩
    exact h f values pos hcall.1 hvalues
  tasks := by
    intro target f arity values pos hfits hvalues
    rcases hfits with ⟨owners, hstart⟩
    have hcall := h f values pos hstart.2.1.1 hvalues
    exact keeps_asTask (fun _ hm => hm.forTask) (fun _ _ hm htask => hm.afterTask htask) hcall

variable {l : Loaded σ} (hwell : l.program.WellFormed)

include hwell

theorem callsKeepTyped_invoke (fuel : Nat) : CallsKeepTyped l.program (l.invoke fuel) := by
  -- By induction on the fuel: a call runs a body whose calls have less.
  induction fuel with
  | zero => exact fun _ _ _ _ _ _ _ => trivial
  | succ fuel ih =>
      intro f values pos hf haccepted
      apply keeps_invoke
      · intro m host hm
        exact ⟨hm.globals, hm.frames, hm.tasks⟩
      · intro block hblock
        rcases hwell.body hblock with ⟨hexact, hfit⟩
        have hframe : (Eval.callFrame l.program f values : Frame).Typed l.program :=
          typed_callFrame hwell.tables hf hexact haccepted
        have hbody := keeps_stmts (typed_invariant ih) fuel block.body hfit
        exact keeps_inFrame (fun _ hm => hm.push hframe) (fun _ hm => hm.pop _) hbody

theorem invariant_typed (fuel : Nat) :
    Invariant l.program (l.invoke fuel) (Mention.FitsSomewhere l.program)
      (Machine.Typed l.program) :=
  typed_invariant (callsKeepTyped_invoke hwell fuel)

theorem keepsTyped_run (fuel : Nat) : KeepsAll (Machine.Typed l.program) (l.run fuel) := by
  apply (keeps_stmts (invariant_typed hwell fuel) fuel _ hwell.root.fit).bind
  intro flow _ m hm
  exact ⟨trivial, hm.globals, hm.frames, TaskList.targets_empty _⟩

theorem keepsTyped_callFunction (fuel : Nat) {f : FunId} (hf : f < l.program.functions.length)
    (args : List Value) : KeepsAll (Machine.Typed l.program) (l.callFunction fuel f args) := by
  apply Keeps.ite
  · intro _
    exact keeps_failAt _ _
  · intro _
    apply (keeps_checkArguments f _ _ args).bind
    intro _ haccepted
    exact callsKeepTyped_invoke hwell fuel f args _ hf haccepted

end Calls
end Scriptlet
