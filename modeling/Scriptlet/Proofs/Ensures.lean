/-!
# What a computation ensures

A computation over a state that may stop with an error ensures a property when its
answer, with the state that it leaves, has the property, or else its error is one of
those that are allowed.  The rules follow the ways in which parsers and folds are put
together.
-/

namespace Scriptlet

section Rules

variable {ε σ α β : Type}

def Ends (fault : ε -> Prop) (post : α -> Prop) : Except ε α -> Prop
  | .ok a => post a
  | .error e => fault e

def Ensures (fault : ε -> Prop) (x : StateT σ (Except ε) α) (s : σ) (post : α -> σ -> Prop) :
    Prop :=
  Ends fault (fun answer => post answer.1 answer.2) (x s)

abbrev Yields (x : StateT σ (Except ε) α) (s : σ) (post : α -> σ -> Prop) : Prop :=
  Ensures (fun _ => True) x s post

variable {fault : ε -> Prop}

theorem Ensures.mono {x : StateT σ (Except ε) α} {s : σ} {post post' : α -> σ -> Prop}
    (h : Ensures fault x s post) (himp : forall a s', post a s' -> post' a s') :
    Ensures fault x s post' := by
  unfold Ensures at h ⊢
  cases hx : x s with
  | error e =>
      rw [hx] at h
      exact h
  | ok answer =>
      rw [hx] at h
      exact himp _ _ h

theorem Ensures.and {x : StateT σ (Except ε) α} {s : σ} {post post' : α -> σ -> Prop}
    (h : Ensures fault x s post) (h' : Ensures fault x s post') :
    Ensures fault x s fun a s' => post a s' ∧ post' a s' := by
  unfold Ensures at h h' ⊢
  cases hx : x s with
  | error e =>
      rw [hx] at h
      exact h
  | ok answer =>
      rw [hx] at h h'
      exact ⟨h, h'⟩

theorem Ensures.of_ok {x : StateT σ (Except ε) α} {s s' : σ} {a : α} {post : α -> σ -> Prop}
    (h : Ensures fault x s post) (hx : x s = .ok (a, s')) : post a s' := by
  rw [Ensures, hx] at h
  exact h

theorem Ensures.of_eq {x : StateT σ (Except ε) α} {s s' : σ} {a : α} {post : α -> σ -> Prop}
    (hx : x s = .ok (a, s')) (h : post a s') : Ensures fault x s post := by
  rw [Ensures, hx]
  exact h

theorem Ensures.of_error {x : StateT σ (Except ε) α} {s : σ} {e : ε} {post : α -> σ -> Prop}
    (h : Ensures fault x s post) (hx : x s = .error e) : fault e := by
  rw [Ensures, hx] at h
  exact h

theorem Ensures.remember {x : StateT σ (Except ε) α} {s : σ} {post : α -> σ -> Prop}
    (h : Ensures fault x s post) :
    Ensures fault x s fun a s' => x s = .ok (a, s') ∧ post a s' := by
  unfold Ensures at h ⊢
  cases hx : x s with
  | error e =>
      rw [hx] at h
      exact h
  | ok answer =>
      rw [hx] at h
      exact ⟨rfl, h⟩

theorem Ensures.blame {fault' : ε -> Prop} {x : StateT σ (Except ε) α} {s : σ}
    {post : α -> σ -> Prop} (h : Ensures fault x s post)
    (hfault : forall e, x s = .error e -> fault' e) : Ensures fault' x s post := by
  unfold Ensures at h ⊢
  cases hx : x s with
  | error e => exact hfault e hx
  | ok answer =>
      rw [hx] at h
      exact h

@[simp] theorem ensures_bind (x : StateT σ (Except ε) α) (f : α -> StateT σ (Except ε) β)
    (s : σ) (post : β -> σ -> Prop) :
    Ensures fault (x >>= f) s post <->
      Ensures fault x s fun a s' => Ensures fault (f a) s' post := by
  change Ends fault _ (x s >>= fun answer => f answer.1 answer.2) <-> _
  unfold Ensures
  cases x s <;> rfl

theorem Ensures.bind {x : StateT σ (Except ε) α} {f : α -> StateT σ (Except ε) β} {s : σ}
    {mid : α -> σ -> Prop} {post : β -> σ -> Prop} (hx : Ensures fault x s mid)
    (hf : forall a s', mid a s' -> Ensures fault (f a) s' post) :
    Ensures fault (x >>= f) s post :=
  (ensures_bind x f s post).mpr (hx.mono hf)

@[simp] theorem ensures_pure (a : α) (s : σ) (post : α -> σ -> Prop) :
    Ensures fault (pure a : StateT σ (Except ε) α) s post <-> post a s :=
  Iff.rfl

@[simp] theorem ensures_get (s : σ) (post : σ -> σ -> Prop) :
    Ensures fault (get : StateT σ (Except ε) σ) s post <-> post s s :=
  Iff.rfl

theorem Ensures.get_bind {f : σ -> StateT σ (Except ε) β} {s : σ} {post : β -> σ -> Prop}
    (h : Ensures fault (f s) s post) : Ensures fault (get >>= f) s post :=
  h

theorem Ensures.set_bind {s' : σ} {f : PUnit -> StateT σ (Except ε) β} {s : σ}
    {post : β -> σ -> Prop} (h : Ensures fault (f ⟨⟩) s' post) :
    Ensures fault (set s' >>= f) s post :=
  h

theorem Ensures.modify_bind {g : σ -> σ} {f : PUnit -> StateT σ (Except ε) β} {s : σ}
    {post : β -> σ -> Prop} (h : Ensures fault (f ⟨⟩) (g s) post) :
    Ensures fault (modify g >>= f) s post :=
  h

theorem Ensures.ite {c : Prop} [Decidable c] {x y : StateT σ (Except ε) α} {s : σ}
    {post : α -> σ -> Prop} (hx : c -> Ensures fault x s post)
    (hy : ¬c -> Ensures fault y s post) : Ensures fault (if c then x else y) s post := by
  by_cases hc : c
  · rw [if_pos hc]
    exact hx hc
  · rw [if_neg hc]
    exact hy hc

@[simp] theorem ensures_set (s s' : σ) (post : PUnit -> σ -> Prop) :
    Ensures fault (set s' : StateT σ (Except ε) PUnit) s post <-> post ⟨⟩ s' :=
  Iff.rfl

@[simp] theorem ensures_modify (f : σ -> σ) (s : σ) (post : PUnit -> σ -> Prop) :
    Ensures fault (modify f : StateT σ (Except ε) PUnit) s post <-> post ⟨⟩ (f s) :=
  Iff.rfl

@[simp] theorem ensures_throw (e : ε) (s : σ) (post : α -> σ -> Prop) :
    Ensures fault (throw e : StateT σ (Except ε) α) s post <-> fault e :=
  Iff.rfl

@[simp] theorem ensures_ite (c : Prop) [Decidable c] (x y : StateT σ (Except ε) α) (s : σ)
    (post : α -> σ -> Prop) :
    Ensures fault (if c then x else y) s post <->
      (c -> Ensures fault x s post) ∧ (¬c -> Ensures fault y s post) := by
  by_cases hc : c <;> simp [hc]

@[simp] theorem ensures_map (f : α -> β) (x : StateT σ (Except ε) α) (s : σ)
    (post : β -> σ -> Prop) :
    Ensures fault (f <$> x) s post <-> Ensures fault x s fun a s' => post (f a) s' := by
  rw [map_eq_pure_bind, ensures_bind]
  simp only [ensures_pure]

@[simp] theorem yields_true (x : StateT σ (Except ε) α) (s : σ) :
    Yields x s (fun _ _ => True) <-> True := by
  unfold Yields Ensures
  cases x s <;> exact iff_of_true trivial trivial

theorem Yields.skip {x : StateT σ (Except ε) α} {f : α -> StateT σ (Except ε) β} {s : σ}
    {post : β -> σ -> Prop} (hf : forall a s', Yields (f a) s' post) : Yields (x >>= f) s post :=
  Ensures.bind ((yields_true x s).mpr trivial) fun a s' _ => hf a s'

end Rules

end Scriptlet
