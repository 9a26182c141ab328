/-!
# Stateful runs

A run takes a state and ends with a value or an error, and in both cases with
the state that it leaves.  The third outcome stands for a run that was given too
little fuel to end.
-/

namespace Scriptlet

inductive Outcome (error state value : Type) where
  | done (value : value) (state : state)
  | failed (error : error) (state : state)
  | unfinished

namespace Outcome

variable {ε σ τ α : Type}

def mapState (f : σ -> τ) : Outcome ε σ α -> Outcome ε τ α
  | done a s => done a (f s)
  | failed e s => failed e (f s)
  | unfinished => unfinished

end Outcome

def Run (error state value : Type) : Type :=
  state -> Outcome error state value

namespace Run

variable {ε σ α β : Type}

@[inline, always_inline] def pure (a : α) : Run ε σ α :=
  fun s => .done a s

@[inline, always_inline] def bind (x : Run ε σ α) (f : α -> Run ε σ β) : Run ε σ β :=
  fun s =>
    match x s with
    | .done a s' => f a s'
    | .failed e s' => .failed e s'
    | .unfinished => .unfinished

instance : Monad (Run ε σ) where
  pure := Run.pure
  bind := Run.bind

@[inline] def fail (e : ε) : Run ε σ α :=
  fun s => .failed e s

@[inline] def exhausted : Run ε σ α :=
  fun _ => .unfinished

@[inline] def get : Run ε σ σ :=
  fun s => .done s s

@[inline] def modify (f : σ -> σ) : Run ε σ Unit :=
  fun s => .done () (f s)

/-!
# Equations
-/

@[simp] theorem pure_apply (a : α) (s : σ) : (Pure.pure a : Run ε σ α) s = .done a s :=
  rfl

theorem bind_apply (x : Run ε σ α) (f : α -> Run ε σ β) (s : σ) :
    (x >>= f) s =
      match x s with
      | .done a s' => f a s'
      | .failed e s' => .failed e s'
      | .unfinished => .unfinished :=
  rfl

@[simp] theorem fail_apply (e : ε) (s : σ) : (fail e : Run ε σ α) s = .failed e s :=
  rfl

@[simp] theorem exhausted_apply (s : σ) : (exhausted : Run ε σ α) s = .unfinished :=
  rfl

@[simp] theorem get_apply (s : σ) : (get : Run ε σ σ) s = .done s s :=
  rfl

@[simp] theorem modify_apply (f : σ -> σ) (s : σ) :
    (modify f : Run ε σ Unit) s = .done () (f s) :=
  rfl

instance : LawfulMonad (Run ε σ) :=
  .mk' _
    (by
      intro α x
      funext s
      show (match x s with
        | .done a s' => .done a s'
        | .failed e s' => .failed e s'
        | .unfinished => .unfinished) = x s
      cases x s <;> rfl)
    (fun _ _ => rfl)
    (by
      intro α β γ x f g
      funext s
      simp only [bind_apply]
      cases x s <;> rfl)

end Run
end Scriptlet
