import Mathlib.Algebra.Order.Ring.Abs
import Mathlib.Tactic.NormNum
import Scriptlet.Operator

/-!
# Whole numbers are exact

An operator on whole numbers answers with the number that it has in mathematics, or
with an overflow when 64 bits do not hold that number.  Division cuts toward zero.  A
power is exact as long as its exponent is a natural number of 32 bits; any other power
is taken in doubles.
-/

namespace Scriptlet

/-- The answer is the whole number `n`, or an overflow when 64 bits do not hold it. -/
inductive Exactly (symbol : String) (n : Int) : Except OpError Value -> Prop where
  | fits {m : Int64} : m.toInt = n -> Exactly symbol n (.ok (.int m))
  | overflow : ¬ FitsInt64 n -> Exactly symbol n (.error (.overflow symbol))

theorem toInt_ofInt_of_fits {n : Int} (h : FitsInt64 n) : (Int64.ofInt n).toInt = n := by
  apply Int64.toInt_ofInt_of_le
  · exact h.1
  · exact h.2

theorem fits_toInt (a : Int64) : FitsInt64 a.toInt :=
  ⟨a.le_toInt, a.toInt_lt⟩

theorem exactly_fitted (symbol : String) (n : Int) :
    Exactly symbol n ((fitted symbol n).map .int) := by
  unfold fitted
  by_cases h : FitsInt64 n
  · rw [if_pos h]
    exact .fits (toInt_ofInt_of_fits h)
  · rw [if_neg h]
    exact .overflow h

/-!
# Powers
-/

theorem wholePow_eq_pow (base : Int) (n : Nat) : wholePow base n = base ^ n := by
  induction n with
  | zero => rw [wholePow_zero, pow_zero]
  | succ n ih => rw [wholePow_succ, ih, pow_succ]

/-- Past the 64th power only the bases -1, 0 and 1 stay inside of 64 bits. -/
theorem not_fits_pow {base : Int} {n : Nat} (hn : 64 ≤ n) (hzero : base ≠ 0) (hone : base ≠ 1)
    (hneg : base ≠ -1) : ¬ FitsInt64 (base ^ n) := by
  have hbase : 2 ≤ |base| := by
    rcases abs_cases base with h | h <;> omega
  have hpow : 18446744073709551616 ≤ |base ^ n| :=
    calc (18446744073709551616 : Int) = 2 ^ 64 := by norm_num
      _ ≤ 2 ^ n := pow_le_pow_right₀ (by norm_num) hn
      _ ≤ |base| ^ n := pow_le_pow_left₀ (by norm_num) hbase n
      _ = |base ^ n| := (abs_pow base n).symm
  intro hfits
  have hsmall : |base ^ n| ≤ 9223372036854775808 := by
    rw [abs_le]
    exact ⟨hfits.1, Int.le_of_lt hfits.2⟩
  exact absurd (hpow.trans hsmall) (by norm_num)

theorem exactly_fittedPower (base : Int64) (n : Nat) :
    Exactly "^" (base.toInt ^ n) ((powInt.fittedPower base.toInt n).map .int) := by
  unfold powInt.fittedPower
  by_cases hsmall : n < 64
  · rw [if_pos hsmall, wholePow_eq_pow]
    exact exactly_fitted "^" _
  · rw [if_neg hsmall]
    have hn : 64 ≤ n := Nat.not_lt.mp hsmall
    by_cases hfixed : base.toInt = 0 ∨ base.toInt = 1
    · rw [if_pos hfixed]
      have hpow : base.toInt ^ n = base.toInt := by
        rcases hfixed with h | h
        · rw [h]
          exact zero_pow (by omega)
        · rw [h]
          exact one_pow n
      rw [hpow]
      exact .fits (toInt_ofInt_of_fits (fits_toInt base))
    · rw [if_neg hfixed]
      by_cases hneg : base.toInt = -1
      · rw [if_pos hneg, hneg]
        by_cases heven : n % 2 = 0
        · rw [if_pos heven]
          exact .fits (Even.neg_one_pow (Nat.even_iff.mpr heven)).symm
        · rw [if_neg heven]
          exact .fits (Odd.neg_one_pow (Nat.odd_iff.mpr (by omega))).symm
      · rw [if_neg hneg]
        exact .overflow (not_fits_pow hn (fun h => hfixed (.inl h)) (fun h => hfixed (.inr h)) hneg)

/-!
# The operators
-/

structure WholeNumbersExact (a b : Int64) : Prop where
  add : Exactly "+" (a.toInt + b.toInt) (BinaryOp.add.apply (.int a) (.int b))
  sub : Exactly "-" (a.toInt - b.toInt) (BinaryOp.sub.apply (.int a) (.int b))
  mul : Exactly "*" (a.toInt * b.toInt) (BinaryOp.mul.apply (.int a) (.int b))
  neg : Exactly "-" (-a.toInt) (UnaryOp.neg.apply (.int a))
  div_zero : BinaryOp.div.apply (.int a) (.int b) = .error .divisionByZero <-> b.toInt = 0
  div : b.toInt ≠ 0 -> Exactly "/" (a.toInt.tdiv b.toInt) (BinaryOp.div.apply (.int a) (.int b))
  pow : 0 ≤ b.toInt -> b.toInt < 4294967296 ->
    Exactly "^" (a.toInt ^ b.toInt.toNat) (BinaryOp.pow.apply (.int a) (.int b))
  pow_float : b.toInt < 0 ∨ 4294967296 ≤ b.toInt ->
    BinaryOp.pow.apply (.int a) (.int b) =
      .ok (.int (arithmeticFloat .pow a.toFloat b.toFloat).toInt64)

theorem eq_zero_iff_toInt (b : Int64) : b = 0 <-> b.toInt = 0 := by
  constructor
  · intro h
    rw [h]
    rfl
  · intro h
    exact Int64.toInt_inj.mp h

theorem apply_div_of_ne {a b : Int64} (hb : b.toInt ≠ 0) :
    BinaryOp.div.apply (.int a) (.int b) = (fitted "/" (a.toInt.tdiv b.toInt)).map .int := by
  have hne : b ≠ 0 := fun h => hb ((eq_zero_iff_toInt b).mp h)
  change (if b = 0 then _ else _ : Except OpError Int64).map Value.int = _
  rw [if_neg hne]

theorem apply_div_zero {a b : Int64} (hb : b.toInt = 0) :
    BinaryOp.div.apply (.int a) (.int b) = .error .divisionByZero := by
  change (if b = 0 then _ else _ : Except OpError Int64).map Value.int = _
  rw [if_pos ((eq_zero_iff_toInt b).mpr hb)]
  rfl

theorem fitted_ne_divisionByZero (symbol : String) (n : Int) :
    (fitted symbol n).map Value.int ≠ .error .divisionByZero := by
  intro h
  have hexact := exactly_fitted symbol n
  rw [h] at hexact
  cases hexact

/-- Whole numbers are exact, but for powers whose exponent is no natural number of 32 bits. -/
theorem wholeNumbersExact (a b : Int64) : WholeNumbersExact a b where
  add := exactly_fitted "+" _
  sub := exactly_fitted "-" _
  mul := exactly_fitted "*" _
  neg := exactly_fitted "-" _
  div_zero := by
    constructor
    · intro h
      apply Decidable.byContradiction
      intro hb
      rw [apply_div_of_ne hb] at h
      exact fitted_ne_divisionByZero _ _ h
    · exact apply_div_zero
  div := by
    intro hb
    rw [apply_div_of_ne hb]
    exact exactly_fitted "/" _
  pow := by
    intro hlow hhigh
    change Exactly "^" _ ((powInt a b).map .int)
    rw [powInt, if_pos ⟨hlow, hhigh⟩]
    exact exactly_fittedPower a b.toInt.toNat
  pow_float := by
    intro hout
    change (powInt a b).map Value.int = _
    rw [powInt, if_neg (by omega)]
    rfl

end Scriptlet
