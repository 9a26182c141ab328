import Scriptlet.Parser.State
import Scriptlet.Proofs.Parsing.Ahead

/-!
# Parsers that do the same up to the end mark

Two parsers are alike when they cannot be told apart from states that agree up to the end
mark: they answer the same or fail the same, take tokens before the mark only, and leave
states that agree again.  How many tokens they take at least is part of the statement,
since a loop that takes a token in every round is done before its bound is, whatever the
bound.
-/

namespace Scriptlet

/-- A state of which the tokens behind the first end mark do not count. -/
structure Sight (σ : Type) where
  tokens : σ -> List Token
  Same : σ -> σ -> Prop
  refl : forall s, Same s s
  toEnd : forall {s t}, Same s t -> SameToEnd (tokens s) (tokens t)
  eq : forall {s t}, Same s t -> tokens s = tokens t -> s = t

def Sight.ofTokens : Sight (List Token) where
  tokens := id
  Same := SameToEnd
  refl := .refl
  toEnd := id
  eq := fun _ h => h

def Sight.ofState : Sight ParseState where
  tokens := (·.tokens)
  Same := fun s t => SameToEnd s.tokens t.tokens ∧ t = { s with tokens := t.tokens }
  refl := fun s => ⟨.refl s.tokens, rfl⟩
  toEnd := And.left
  eq := by
    intro s t h htokens
    rw [h.2, ← htokens]

section Rules

variable {σ α β : Type} {V : Sight σ} {n m count : Nat} {token : Token} {s t : σ}

inductive Likewise (V : Sight σ) (count : Nat) (s t : σ) :
    Except ParseError (α × σ) -> Except ParseError (α × σ) -> Prop where
  | ok {a : α} {s' t' : σ} (hsame : V.Same s' t') (hs : Took count (V.tokens s) (V.tokens s'))
      (ht : Took count (V.tokens t) (V.tokens t')) :
      Likewise V count s t (.ok (a, s')) (.ok (a, t'))
  | error (e : ParseError) : Likewise V count s t (.error e) (.error e)

def AlikeFrom (V : Sight σ) (token : Token) (n count : Nat)
    (p q : StateT σ (Except ParseError) α) : Prop :=
  forall s t, V.Same s t -> ahead (V.tokens s) < n -> frontToken (V.tokens s) = token ->
    Likewise V count s t (p s) (q t)

def Alike (V : Sight σ) (n count : Nat) (p q : StateT σ (Except ParseError) α) : Prop :=
  forall token, AlikeFrom V token n count p q

theorem Likewise.weaken {x y : Except ParseError (α × σ)} (h : Likewise V count s t x y)
    (hle : m ≤ count) : Likewise V m s t x y := by
  cases h with
  | ok hsame hs ht => exact .ok hsame (hs.weaken hle) (ht.weaken hle)
  | error e => exact .error e

theorem Likewise.behind {s' t' : σ} {x y : Except ParseError (α × σ)}
    (h : Likewise V m s' t' x y) (hs : Took count (V.tokens s) (V.tokens s'))
    (ht : Took count (V.tokens t) (V.tokens t')) : Likewise V (count + m) s t x y := by
  cases h with
  | ok hsame hs' ht' => exact .ok hsame (hs.trans hs') (ht.trans ht')
  | error e => exact .error e

theorem Likewise.bind {x y : Except ParseError (α × σ)}
    {f g : α × σ -> Except ParseError (β × σ)} (h : Likewise V count s t x y)
    (hf : forall a s' t', V.Same s' t' -> ahead (V.tokens s') + count ≤ ahead (V.tokens s) ->
      Likewise V m s' t' (f (a, s')) (g (a, t'))) :
    Likewise V (count + m) s t (x >>= f) (y >>= g) := by
  cases h with
  | error e => exact .error e
  | @ok a s' t' hsame hs ht =>
      exact (hf a s' t' hsame hs.ahead_le).behind hs ht

theorem Likewise.mapError {x y : Except ParseError (α × σ)} (h : Likewise V count s t x y)
    (f : ParseError -> ParseError) : Likewise V count s t (x.mapError f) (y.mapError f) := by
  cases h with
  | ok hsame hs ht => exact .ok hsame hs ht
  | error e => exact .error (f e)

theorem Likewise.eq {x y : Except ParseError (α × σ)} (h : Likewise V count s s x y) : x = y := by
  cases h with
  | error e => rfl
  | ok hsame hs ht =>
      rw [V.eq hsame (hs.eq_of_ahead ht (V.toEnd hsame).ahead_eq)]

variable {p p' q q' : StateT σ (Except ParseError) α}
  {f f' : α -> StateT σ (Except ParseError) β}

theorem Alike.likewise (h : Alike V n count p p') (hsame : V.Same s t)
    (hn : ahead (V.tokens s) < n) : Likewise V count s t (p s) (p' t) :=
  h _ s t hsame hn rfl

theorem Alike.eq (h : Alike V n count p p') (hn : ahead (V.tokens s) < n) : p s = p' s :=
  (h.likewise (V.refl s) hn).eq

theorem Alike.mono (h : Alike V n count p p') (hle : m ≤ n) : Alike V m count p p' :=
  fun token s t hsame hm => h token s t hsame (Nat.lt_of_lt_of_le hm hle)

theorem alike_nothing (p p' : StateT σ (Except ParseError) α) : Alike V 0 count p p' :=
  fun _ _ _ _ h => absurd h (Nat.not_lt_zero _)

theorem AlikeFrom.weaken (h : AlikeFrom V token n count p p') (hle : m ≤ count) :
    AlikeFrom V token n m p p' :=
  fun s t hsame hn htoken => (h s t hsame hn htoken).weaken hle

theorem Alike.weaken (h : Alike V n count p p') (hle : m ≤ count) : Alike V n m p p' :=
  fun token => (h token).weaken hle

theorem Alike.outcome (h : forall n, Alike V n count p p) (s : σ) :
    (exists e, p s = .error e) ∨
      exists a s', p s = .ok (a, s') ∧ Took count (V.tokens s) (V.tokens s') := by
  have h := (h _).likewise (V.refl s) (Nat.lt_succ_self _)
  cases hp : p s with
  | error e => exact .inl ⟨e, rfl⟩
  | ok answer =>
      rw [hp] at h
      cases h with
      | ok _ htook _ => exact .inr ⟨_, _, rfl, htook⟩

def NeedsToken (V : Sight σ) (p : StateT σ (Except ParseError) α) : Prop :=
  forall s, ahead (V.tokens s) = 0 -> exists e, p s = .error e

theorem Alike.needsToken (h : Alike V (n + 1) 1 p p') : NeedsToken V p ∧ NeedsToken V p' := by
  have hfails : forall s, ahead (V.tokens s) = 0 ->
      exists e, p s = .error e ∧ p' s = .error e := by
    intro s hs
    have h := h.likewise (V.refl s) (hs ▸ n.succ_pos)
    revert h
    generalize p s = x, p' s = y
    intro h
    cases h with
    | ok _ htook _ => exact absurd (hs ▸ htook.ahead_le) (Nat.not_succ_le_zero _)
    | error e => exact ⟨e, rfl, rfl⟩
  constructor
  · intro s hs
    rcases hfails s hs with ⟨e, he, _⟩
    exact ⟨e, he⟩
  · intro s hs
    rcases hfails s hs with ⟨e, _, he⟩
    exact ⟨e, he⟩

/-!
# Sequences
-/

theorem bind_of_answer {a : α} {s' : σ} (h : p s = .ok (a, s'))
    (f : α -> StateT σ (Except ParseError) β) : (p >>= f) s = f a s' := by
  change (p s >>= fun x => f x.1 x.2) = f a s'
  rw [h]
  rfl

theorem bind_of_error {e : ParseError} (h : p s = .error e)
    (f : α -> StateT σ (Except ParseError) β) : (p >>= f) s = .error e := by
  change (p s >>= fun x => f x.1 x.2) = .error e
  rw [h]
  rfl

theorem NeedsToken.bind_eq (h : NeedsToken V p) (hs : ahead (V.tokens s) = 0) :
    (p >>= f) s = (p >>= f') s := by
  rcases h s hs with ⟨e, he⟩
  rw [bind_of_error he, bind_of_error he]

theorem AlikeFrom.first (hp : AlikeFrom V token n count p p')
    (hf : forall a, Alike V (n - count) 0 (f a) (f' a)) :
    AlikeFrom V token n count (p >>= f) (p' >>= f') := by
  intro s t hsame hn htoken
  refine Likewise.bind (m := 0) (hp s t hsame hn htoken) ?_
  intro a s' t' hsame' hle
  exact (hf a).likewise hsame' (by omega)

theorem AlikeFrom.skip (hp : AlikeFrom V token n m p p')
    (hf : forall a, Alike V n count (f a) (f' a)) :
    AlikeFrom V token n count (p >>= f) (p' >>= f') := by
  intro s t hsame hn htoken
  refine Likewise.weaken (Likewise.bind (hp s t hsame hn htoken) ?_) (Nat.le_add_left count m)
  intro a s' t' hsame' hle
  exact (hf a).likewise hsame' (by omega)

theorem Alike.first (hp : Alike V n count p p')
    (hf : forall a, Alike V (n - count) 0 (f a) (f' a)) :
    Alike V n count (p >>= f) (p' >>= f') :=
  fun token => (hp token).first hf

theorem Alike.skip (hp : Alike V n m p p') (hf : forall a, Alike V n count (f a) (f' a)) :
    Alike V n count (p >>= f) (p' >>= f') :=
  fun token => (hp token).skip hf

theorem alike_pure (a : α) : Alike V n 0 (pure a) (pure a) :=
  fun _ _ _ hsame _ _ => .ok hsame (took_nothing _) (took_nothing _)

theorem alike_fail (cause : ParseCause) (pos : Option Pos) :
    Alike V n count (Parse.fail cause pos : StateT σ (Except ParseError) α)
      (Parse.fail cause pos) :=
  fun _ _ _ _ _ _ => .error _

theorem alike_fail_bind (cause : ParseCause) (pos : Option Pos) :
    Alike V n count ((Parse.fail cause pos : StateT σ (Except ParseError) α) >>= f)
      (Parse.fail cause pos >>= f') :=
  fun _ _ _ _ _ _ => .error _

theorem Alike.ite {c : Prop} [Decidable c] (hp : c -> Alike V n count p p')
    (hq : ¬c -> Alike V n count q q') :
    Alike V n count (if c then p else q) (if c then p' else q') := by
  by_cases hc : c
  · rw [if_pos hc, if_pos hc]
    exact hp hc
  · rw [if_neg hc, if_neg hc]
    exact hq hc

theorem Alike.map (h : Alike V n count p p') (f : α -> β) :
    Alike V n count (f <$> p) (f <$> p') := by
  rw [map_eq_pure_bind, map_eq_pure_bind]
  exact h.first fun a => alike_pure (f a)

end Rules

end Scriptlet
