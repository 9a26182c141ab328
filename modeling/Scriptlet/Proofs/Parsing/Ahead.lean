import Scriptlet.Parser.Tokens

/-!
# Up to the end mark

Only the tokens before the first end mark can be taken.  Two token lists that agree up to
that mark cannot be told apart by what stands in front, whatever has been taken of them.
Where a list has no end mark, one stands behind it.
-/

namespace Scriptlet

def ahead (tokens : List Token) : Nat :=
  (tokens.takeWhile fun t => !t.isEnd).length

theorem ahead_cons {t : Token} (ht : t.isEnd = false) (rest : List Token) :
    ahead (t :: rest) = ahead rest + 1 := by
  simp [ahead, ht]

theorem ahead_append {taken : List Token} (htaken : forall t, t ∈ taken -> t.isEnd = false)
    (rest : List Token) : ahead (taken ++ rest) = taken.length + ahead rest := by
  induction taken with
  | nil => exact (Nat.zero_add _).symm
  | cons t taken ih =>
      rw [List.cons_append, ahead_cons (htaken t List.mem_cons_self),
        ih fun u hu => htaken u (List.mem_cons_of_mem t hu), List.length_cons,
        Nat.add_right_comm]

theorem ahead_le_length (tokens : List Token) : ahead tokens ≤ tokens.length :=
  (List.takeWhile_prefix _).length_le

theorem ahead_eq_zero {tokens : List Token} :
    ahead tokens = 0 <-> (frontToken tokens).isEnd = true := by
  cases tokens with
  | nil => exact iff_of_true rfl rfl
  | cons t rest =>
      change _ <-> t.isEnd = true
      cases ht : t.isEnd with
      | false => exact iff_of_false (by simp [ahead_cons ht]) Bool.false_ne_true
      | true => exact iff_of_true (by simp [ahead, ht]) rfl

theorem frontToken_kind_of_ahead {tokens : List Token} (h : ahead tokens = 0) :
    (frontToken tokens).kind = .endOfInput :=
  eq_of_beq (ahead_eq_zero.mp h)

theorem isEnd_eq_false {t : Token} (h : t.kind ≠ .endOfInput) : t.isEnd = false :=
  beq_eq_false_iff_ne.mpr h

/-!
# What has been taken
-/

/-- At least `count` tokens stood before the rest and have been taken, and none of them is an
end mark. -/
def Took (count : Nat) (tokens rest : List Token) : Prop :=
  exists taken, tokens = taken ++ rest ∧ count ≤ taken.length ∧
    forall t, t ∈ taken -> t.isEnd = false

theorem took_nothing (tokens : List Token) : Took 0 tokens tokens := by
  refine ⟨[], rfl, Nat.le_refl 0, ?_⟩
  intro t ht
  cases ht

theorem took_dropFront {tokens : List Token} (h : (frontToken tokens).isEnd = false) :
    Took 1 tokens (dropFront tokens) := by
  cases tokens with
  | nil => cases h
  | cons t rest =>
      change t.isEnd = false at h
      refine ⟨[t], ?_, Nat.le_refl 1, ?_⟩
      · simp [dropFront, frontToken, h]
      · intro u hu
        rw [List.mem_singleton.mp hu]
        exact h

theorem took_atMostFront (tokens : List Token) : Took 0 tokens (dropFront tokens) := by
  cases hend : (frontToken tokens).isEnd with
  | false =>
      rcases took_dropFront hend with ⟨taken, hsplit, _, htaken⟩
      exact ⟨taken, hsplit, Nat.zero_le _, htaken⟩
  | true =>
      rw [dropFront, if_pos hend]
      exact took_nothing tokens

namespace Took

variable {m n : Nat} {tokens mid rest rest' : List Token}

theorem weaken (h : Took n tokens rest) (hle : m ≤ n) : Took m tokens rest := by
  rcases h with ⟨taken, hsplit, hcount, htaken⟩
  exact ⟨taken, hsplit, Nat.le_trans hle hcount, htaken⟩

theorem trans (h : Took m tokens mid) (h' : Took n mid rest) : Took (m + n) tokens rest := by
  rcases h with ⟨taken, rfl, hcount, htaken⟩
  rcases h' with ⟨taken', rfl, hcount', htaken'⟩
  refine ⟨taken ++ taken', (List.append_assoc _ _ _).symm, ?_, ?_⟩
  · rw [List.length_append]
    exact Nat.add_le_add hcount hcount'
  · intro t ht
    rcases List.mem_append.mp ht with ht | ht
    · exact htaken t ht
    · exact htaken' t ht

theorem ahead_le (h : Took n tokens rest) : ahead rest + n ≤ ahead tokens := by
  rcases h with ⟨taken, rfl, hcount, htaken⟩
  rw [ahead_append htaken]
  omega

/-- How many tokens are still ahead decides what the rest is. -/
theorem eq_of_ahead (h : Took m tokens rest) (h' : Took n tokens rest')
    (hahead : ahead rest = ahead rest') : rest = rest' := by
  rcases h with ⟨taken, rfl, -, htaken⟩
  rcases h' with ⟨taken', hsplit, -, htaken'⟩
  have hlength : taken.length = taken'.length := by
    have h := congrArg ahead hsplit
    rw [ahead_append htaken, ahead_append htaken', hahead] at h
    exact Nat.add_right_cancel h
  exact (List.append_inj hsplit hlength).2

theorem eq_dropWhile (h : Took n tokens rest) (hend : (frontToken rest).isEnd = true) :
    rest = tokens.dropWhile fun t => !t.isEnd := by
  rcases h with ⟨taken, rfl, -, htaken⟩
  rw [List.dropWhile_append_of_pos fun t ht => by simp [htaken t ht]]
  cases rest with
  | nil => rfl
  | cons t rest =>
      change t.isEnd = true at hend
      simp [hend]

end Took

/-!
# Lists that agree up to the end mark
-/

/-- The same tokens up to the first end mark, and that mark as well. -/
inductive SameToEnd : List Token -> List Token -> Prop where
  | mark {s t : List Token} (hfront : frontToken s = frontToken t)
      (hend : (frontToken s).isEnd = true) : SameToEnd s t
  | token {x : Token} {s t : List Token} (hx : x.isEnd = false) (hrest : SameToEnd s t) :
      SameToEnd (x :: s) (x :: t)

namespace SameToEnd

variable {s t : List Token}

theorem refl : forall s : List Token, SameToEnd s s
  | [] => .mark rfl rfl
  | x :: s => by
      cases hx : x.isEnd with
      | false => exact .token hx (refl s)
      | true => exact .mark rfl hx

theorem frontToken_eq (h : SameToEnd s t) : frontToken s = frontToken t := by
  cases h with
  | mark hfront _ => exact hfront
  | token _ _ => rfl

theorem ahead_eq (h : SameToEnd s t) : ahead s = ahead t := by
  induction h with
  | mark hfront hend => rw [ahead_eq_zero.mpr hend, ahead_eq_zero.mpr (hfront ▸ hend)]
  | token hx _ ih => rw [ahead_cons hx, ahead_cons hx, ih]

theorem dropFront (h : SameToEnd s t) : SameToEnd (dropFront s) (dropFront t) := by
  cases h with
  | mark hfront hend =>
      rw [Scriptlet.dropFront, Scriptlet.dropFront, if_pos hend, if_pos (hfront ▸ hend)]
      exact .mark hfront hend
  | token hx hrest => simpa [Scriptlet.dropFront, frontToken, hx] using hrest

theorem cut {mark : Token} (hmark : mark.isEnd = true) (behind : List Token) :
    forall before : List Token, SameToEnd (before ++ [mark]) (before ++ mark :: behind)
  | [] => .mark rfl hmark
  | x :: before => by
      cases hx : x.isEnd with
      | false => exact .token hx (cut hmark behind before)
      | true => exact .mark rfl hx

theorem closed : forall tokens : List Token, SameToEnd (tokens ++ [.endOfInput]) tokens
  | [] => .mark rfl rfl
  | x :: tokens => by
      cases hx : x.isEnd with
      | false => exact .token hx (closed tokens)
      | true => exact .mark rfl hx

end SameToEnd

end Scriptlet
