import Scriptlet.Proofs.Evaluation.Walk

/-!
# Runs that end alike

A shorter run may stand in the place of another one if the two end in the same way.  The one
that is replaced may take more fuel, so where the fuel is not enough it may not end at all.
-/

namespace Scriptlet

/-- From machines with the first property the second run ends as the first one does, if the
fuel is enough.  Where the first one ends well, its answer and its machine have the second
property. -/
def EndsAlike {σ α : Type} (enough : Prop) (pre : Machine σ -> Prop) (x y : Eval σ α)
    (post : α -> Machine σ -> Prop) : Prop :=
  forall m, pre m -> (x m).Matches Eq Eq (¬enough) (y m) ∧
    forall a m', x m = .done a m' -> post a m'

theorem Outcome.Matches.eq_done {ε σ α : Type} {loose : Prop} {a : α} {s : σ}
    {other : Outcome ε σ α} (h : (Outcome.done a s).Matches Eq Eq loose other) :
    other = .done a s := by
  cases h with
  | done hsame => rw [hsame]

section Rules

variable {σ α β : Type} {enough : Prop} {pre : Machine σ -> Prop} {x y : Eval σ α}
  {post : α -> Machine σ -> Prop}

theorem endsAlike_self (h : forall m a m', pre m -> x m = .done a m' -> post a m') :
    EndsAlike enough pre x x post :=
  fun m hm => ⟨.refl _, fun a m' => h m a m' hm⟩

theorem endsAlike_pure {a : α} (h : forall m, pre m -> post a m) :
    EndsAlike enough pre (pure a : Eval σ α) (pure a) post := by
  apply endsAlike_self
  intro m _ _ hm hrun
  cases hrun
  exact h m hm

theorem endsAlike_failAt (cause : RuntimeCause) (pos : Pos) :
    EndsAlike enough pre (Eval.failAt cause pos : Eval σ α) (Eval.failAt cause pos) post := by
  apply endsAlike_self
  intro m _ _ _ hrun
  cases hrun

theorem endsAlike_of_pre (h : forall m, pre m -> EndsAlike enough pre x y post) :
    EndsAlike enough pre x y post :=
  fun m hm => h m hm m hm

theorem EndsAlike.mono {pre' : Machine σ -> Prop} {post' : α -> Machine σ -> Prop}
    (h : EndsAlike enough pre x y post) (hpre : forall m, pre' m -> pre m)
    (hpost : forall a m, post a m -> post' a m) : EndsAlike enough pre' x y post' :=
  fun m hm => ⟨(h m (hpre m hm)).1, fun a m' hrun => hpost a m' ((h m (hpre m hm)).2 a m' hrun)⟩

theorem EndsAlike.and (h : EndsAlike enough pre x y post) {post' : α -> Machine σ -> Prop}
    (h' : forall m a m', pre m -> x m = .done a m' -> post' a m') :
    EndsAlike enough pre x y fun a m => post a m ∧ post' a m :=
  fun m hm => ⟨(h m hm).1, fun a m' hrun => ⟨(h m hm).2 a m' hrun, h' m a m' hm hrun⟩⟩

theorem EndsAlike.and_behind (h : EndsAlike enough pre x y post)
    {post' : α -> Machine σ -> Prop}
    (h' : forall m a m', pre m -> y m = .done a m' -> post' a m') :
    EndsAlike enough pre x y fun a m => post a m ∧ post' a m := by
  -- The second run ends well where the first one does, so what is known of its end is known of the
  -- end of the first one.
  apply h.and
  intro m a m' hm hrun
  have hmatches := (h m hm).1
  rw [hrun] at hmatches
  exact h' m a m' hm hmatches.eq_done

theorem EndsAlike.weaken {enough' : Prop} (h : EndsAlike enough pre x y post)
    (henough : enough' -> enough) : EndsAlike enough' pre x y post :=
  fun m hm => ⟨(h m hm).1.loosen fun hless hmore => hless (henough hmore), (h m hm).2⟩

theorem EndsAlike.bind {f g : α -> Eval σ β} {post' : β -> Machine σ -> Prop}
    (h : EndsAlike enough pre x y post)
    (hf : forall a, EndsAlike enough (post a) (f a) (g a) post') :
    EndsAlike enough pre (x >>= f) (y >>= g) post' := by
  intro m hm
  rcases h m hm with ⟨hmatches, hpost⟩
  rw [Run.bind_apply, Run.bind_apply]
  generalize x m = first at hmatches hpost
  generalize y m = second at hmatches
  cases hmatches with
  | done hsame =>
      cases hsame
      exact hf _ _ (hpost _ _ rfl)
  | failed he hsame =>
      cases he
      cases hsame
      exact ⟨.failed rfl rfl, fun _ _ hrun => nomatch hrun⟩
  | unfinished => exact ⟨.unfinished, fun _ _ hrun => nomatch hrun⟩
  | cut hless => exact ⟨.cut hless, fun _ _ hrun => nomatch hrun⟩

theorem EndsAlike.skip {a : α} {f : α -> Eval σ β} {y' : Eval σ β}
    {post' : β -> Machine σ -> Prop} (h : EndsAlike enough pre x (pure a) post)
    (hf : EndsAlike enough (post a) (f a) y' post') : EndsAlike enough pre (x >>= f) y' post' := by
  -- A first run that may be left out, since it ends with the answer that is known.
  intro m hm
  rcases h m hm with ⟨hmatches, hpost⟩
  rw [Run.bind_apply]
  rw [Run.pure_apply] at hmatches
  generalize x m = first at hmatches hpost
  cases hmatches with
  | done hsame =>
      cases hsame
      exact hf _ (hpost _ _ rfl)
  | cut hless => exact ⟨.cut hless, fun _ _ hrun => nomatch hrun⟩

theorem EndsAlike.eq (h : EndsAlike enough pre x y post) (henough : enough) {m : Machine σ}
    (hm : pre m) : x m = y m := by
  have hmatches := (h m hm).1
  generalize x m = first at hmatches
  generalize y m = second at hmatches
  cases hmatches with
  | done hs => rw [hs]
  | failed he hs => rw [he, hs]
  | unfinished => rfl
  | cut hless => exact absurd henough hless

theorem endsAlike_loopWithin {inv : Machine σ -> Prop} {cond cond' : Eval σ Bool}
    {body body' : Eval σ Flow} (hcond : EndsAlike enough inv cond cond' fun _ m => inv m)
    (hbody : EndsAlike enough inv body body' fun _ m => inv m) (limit : Nat) :
    EndsAlike enough inv (Eval.loopWithin cond body limit) (Eval.loopWithin cond' body' limit)
      fun _ m => inv m := by
  induction limit with
  | zero => exact fun m _ => ⟨.unfinished, fun _ _ hrun => nomatch hrun⟩
  | succ limit ih =>
      apply hcond.bind
      intro holds
      cases holds with
      | false => exact endsAlike_pure fun _ => id
      | true =>
          apply hbody.bind
          intro flow
          cases flow with
          | next => exact ih
          | returned value => exact endsAlike_pure fun _ => id

end Rules
end Scriptlet
