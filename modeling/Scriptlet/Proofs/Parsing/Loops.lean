import Mathlib.Logic.Function.Iterate
import Scriptlet.Proofs.Parsing.Alike

/-!
# Loops that are done before their bound

A loop is given by its round, which is told how to go on.  If a round is alike for all ways of
going on that are alike with fewer tokens ahead, then the loop comes to its end before the
tokens do: a bound by the number of tokens cannot be told from a larger one, nor from none.
-/

namespace Scriptlet

section Loops

variable {ι σ α : Type}

/-- The rounds of the loop are done one after the other, and where no token is ahead a bound of
zero does no harm. -/
structure BoundedLoop (V : Sight σ)
    (round : (ι -> StateT σ (Except ParseError) α) -> ι -> StateT σ (Except ParseError) α)
    (loop : Nat -> ι -> StateT σ (Except ParseError) α) : Prop where
  done : forall again i s, ahead (V.tokens s) = 0 -> loop 0 i s = round again i s
  next : forall limit, loop (limit + 1) = round (loop limit)

/-- The first `n` steps of the parser are rounds of the loop. -/
inductive Unrolls (V : Sight σ)
    (round : (ι -> StateT σ (Except ParseError) α) -> ι -> StateT σ (Except ParseError) α) :
    Nat -> (ι -> StateT σ (Except ParseError) α) -> Prop where
  | anything (p : ι -> StateT σ (Except ParseError) α) : Unrolls V round 0 p
  | round {n : Nat} {again p : ι -> StateT σ (Except ParseError) α} (h : Unrolls V round n again)
      (hp : forall i s, ahead (V.tokens s) ≤ n -> p i s = round again i s) :
      Unrolls V round (n + 1) p

def AlikeRounds (V : Sight σ) (bound count : Nat)
    (round round' : (ι -> StateT σ (Except ParseError) α) ->
      ι -> StateT σ (Except ParseError) α) : Prop :=
  forall n, n < bound -> forall again again', (forall i, Alike V n count (again i) (again' i)) ->
    forall i, Alike V (n + 1) count (round again i) (round' again' i)

/-- The loop goes on as its round says, without a bound, and it ends: cut off after more rounds
than tokens are ahead, it does not come to the cut, whatever it would do there. -/
structure HaltsFrom (V : Sight σ)
    (round : (ι -> StateT σ (Except ParseError) α) -> ι -> StateT σ (Except ParseError) α)
    (loop : ι -> StateT σ (Except ParseError) α) : Prop where
  unfolds : forall i s, loop i s = round loop i s
  ends : forall stuck n i s, ahead (V.tokens s) < n -> (round^[n] stuck) i s = loop i s

variable {V : Sight σ} {n m bound count : Nat}
  {round round' : (ι -> StateT σ (Except ParseError) α) -> ι -> StateT σ (Except ParseError) α}
  {loop loop' : Nat -> ι -> StateT σ (Except ParseError) α}
  {q q' : ι -> StateT σ (Except ParseError) α}

theorem Unrolls.mono (h : Unrolls V round n q) (hle : m ≤ n) : Unrolls V round m q := by
  induction h generalizing m with
  | anything q =>
      rw [Nat.le_zero.mp hle]
      exact .anything q
  | round _ hq ih =>
      cases m with
      | zero => exact .anything _
      | succ m =>
          have hle := Nat.le_of_succ_le_succ hle
          exact .round (ih hle) fun i s hs => hq i s (Nat.le_trans hs hle)

theorem unrolls_iterate (stuck : ι -> StateT σ (Except ParseError) α) :
    forall n, Unrolls V round n (round^[n] stuck)
  | 0 => .anything _
  | n + 1 => by
      rw [Function.iterate_succ_apply']
      exact .round (unrolls_iterate stuck n) fun _ _ _ => rfl

theorem AlikeRounds.mono (h : AlikeRounds V n count round round') (hle : m ≤ n) :
    AlikeRounds V m count round round' :=
  fun k hk => h k (Nat.lt_of_lt_of_le hk hle)

theorem AlikeRounds.alike (hround : AlikeRounds V n count round round')
    (hq : Unrolls V round n q) (hq' : Unrolls V round' n q') (i : ι) :
    Alike V n count (q i) (q' i) := by
  induction hq generalizing q' i with
  | anything q => exact alike_nothing _ _
  | @round n again q _ hq ih =>
      cases hq' with
      | @round _ again' _ h' hq' =>
          intro token s t hsame hs htoken
          have hs := Nat.le_of_lt_succ hs
          have hagain := fun i => ih (hround.mono n.le_succ) h' i
          rw [hq i s hs, hq' i t ((V.toEnd hsame).ahead_eq ▸ hs)]
          exact hround n n.lt_succ_self again again' hagain i token s t hsame
            (Nat.lt_succ_of_le hs) htoken

namespace BoundedLoop

theorem atEnd (h : BoundedLoop V round loop) (limit : Nat) (i : ι) {s : σ}
    (hs : ahead (V.tokens s) = 0) : loop limit i s = loop 0 i s := by
  cases limit with
  | zero => rfl
  | succ limit => rw [h.next, h.done (loop limit) i s hs]

theorem unrolls (h : BoundedLoop V round loop) :
    forall {n limit}, n ≤ limit + 1 -> Unrolls V round n (loop limit)
  | 0, _, _ => .anything _
  | n + 1, 0, hn => by
      have hn : n = 0 := Nat.le_zero.mp (Nat.le_of_succ_le_succ hn)
      subst hn
      exact .round (.anything (loop 0)) fun i s hs => h.done (loop 0) i s (Nat.le_zero.mp hs)
  | n + 1, limit + 1, hn => by
      refine .round (h.unrolls (Nat.le_of_succ_le_succ hn)) fun i s _ => ?_
      rw [h.next]

theorem alike_of_unrolls (h : BoundedLoop V round' loop')
    (hround : AlikeRounds V n count round round') (hq : Unrolls V round n q) (i : ι)
    {p : StateT σ (Except ParseError) α} (hp : forall s, p s = loop' (V.tokens s).length i s) :
    Alike V n count (q i) p := by
  intro token s t hsame hs htoken
  have hlength : ahead (V.tokens s) + 1 ≤ (V.tokens t).length + 1 := by
    rw [(V.toEnd hsame).ahead_eq]
    exact Nat.succ_le_succ (ahead_le_length _)
  rw [hp t]
  exact ((hround.mono hs).alike (hq.mono hs) (h.unrolls hlength) i).likewise hsame
    (Nat.lt_succ_self _)

theorem alike (h : BoundedLoop V round loop) (h' : BoundedLoop V round' loop')
    (hround : AlikeRounds V n count round round') (i : ι)
    {p p' : StateT σ (Except ParseError) α} (hp : forall s, p s = loop (V.tokens s).length i s)
    (hp' : forall s, p' s = loop' (V.tokens s).length i s) : Alike V n count p p' := by
  intro token s t hsame hs htoken
  have hunrolls := h.unrolls (Nat.succ_le_succ (ahead_le_length (V.tokens s)))
  rw [hp s]
  exact (h'.alike_of_unrolls (hround.mono hs) hunrolls i hp').likewise hsame (Nat.lt_succ_self _)

theorem halts (h : BoundedLoop V round loop)
    (hround : forall bound, AlikeRounds V bound count round round) :
    HaltsFrom V round fun i s => loop (V.tokens s).length i s where
  unfolds := by
    intro i s
    have hunrolls := h.unrolls (Nat.succ_le_succ (ahead_le_length (V.tokens s)))
    cases hunrolls with
    | round hagain hloop =>
        rw [hloop i s (Nat.le_refl _)]
        have hagain := fun i => h.alike_of_unrolls (hround _) hagain i fun _ => rfl
        exact (hround _ _ (Nat.lt_succ_self _) _ _ hagain i).eq (Nat.lt_succ_self _)
  ends := by
    intro stuck n i s hs
    exact (h.alike_of_unrolls (hround n) (unrolls_iterate stuck n) i fun _ => rfl).eq hs

end BoundedLoop
end Loops

/-!
# Loops that carry nothing
-/

section Steady

variable {σ α : Type} {V : Sight σ}
  {round : StateT σ (Except ParseError) α -> StateT σ (Except ParseError) α}

def steady (round : StateT σ (Except ParseError) α -> StateT σ (Except ParseError) α)
    (again : Unit -> StateT σ (Except ParseError) α) : Unit -> StateT σ (Except ParseError) α :=
  fun _ => round (again ())

/-- As for a loop that carries something. -/
structure Halts (V : Sight σ)
    (round : StateT σ (Except ParseError) α -> StateT σ (Except ParseError) α)
    (loop : StateT σ (Except ParseError) α) : Prop where
  unfolds : forall s, loop s = round loop s
  ends : forall stuck n s, ahead (V.tokens s) < n -> (round^[n] stuck) s = loop s

theorem iterate_steady (stuck : StateT σ (Except ParseError) α) (n : Nat) :
    (steady round)^[n] (fun _ => stuck) = fun _ => round^[n] stuck := by
  induction n with
  | zero => rfl
  | succ n ih =>
      rw [Function.iterate_succ_apply', Function.iterate_succ_apply', ih]
      rfl

theorem HaltsFrom.steady {loop : Unit -> StateT σ (Except ParseError) α}
    (h : HaltsFrom V (steady round) loop) : Halts V round (loop ()) where
  unfolds := h.unfolds ()
  ends := by
    intro stuck n s hs
    rw [← h.ends (fun _ => stuck) n () s hs, iterate_steady]

end Steady

end Scriptlet
