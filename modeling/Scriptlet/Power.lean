/-!
# Powers

Powers of two and ten, powers of whole numbers, and the range of 64 bits.
-/

namespace Scriptlet

def twoPow (n : Nat) : Nat :=
  Nat.pow 2 n

def tenPow (n : Nat) : Nat :=
  Nat.pow 10 n

def wholePow (base : Int) : Nat -> Int
  | 0 => 1
  | n + 1 => wholePow base n * base

@[simp] theorem wholePow_zero (base : Int) : wholePow base 0 = 1 :=
  rfl

theorem wholePow_succ (base : Int) (n : Nat) :
    wholePow base (n + 1) = wholePow base n * base :=
  rfl

def FitsInt64 (n : Int) : Prop :=
  -9223372036854775808 ≤ n ∧ n < 9223372036854775808

instance (n : Int) : Decidable (FitsInt64 n) :=
  inferInstanceAs (Decidable (_ ∧ _))

end Scriptlet
