import Scriptlet.Power

/-!
# Binary fractions of a double

A finite double is a signed product of a natural number and a power of two.
This module takes doubles apart into such products and puts together the double
nearest to a quotient of natural numbers.
-/

namespace Scriptlet

/-- `mantissa * 2 ^ exponent`, negated when `negative` holds. -/
structure Dyadic where
  negative : Bool
  mantissa : Nat
  exponent : Int
deriving DecidableEq, Repr

/-- A double read off its bits. -/
inductive Binary64 where
  | finite (value : Dyadic)
  | infinite (negative : Bool)
  | notANumber
deriving DecidableEq, Repr

namespace Binary64

def ofFloat (x : Float) : Binary64 :=
  let bits := x.toBits.toNat
  let negative := bits / twoPow 63 == 1
  let exponent : Nat := bits / twoPow 52 % twoPow 11
  let fraction := bits % twoPow 52
  if exponent = 2047 then
    if fraction = 0 then infinite negative else notANumber
  else if exponent = 0 then
    finite { negative := negative, mantissa := fraction, exponent := -1074 }
  else
    finite
      { negative := negative
        mantissa := twoPow 52 + fraction
        exponent := (exponent : Int) - 1075 }

end Binary64

/-!
# Rounding a quotient

The quotient is scaled so that its whole part has 53 bits, or fewer at the
smallest exponent, and then rounded with ties to the even neighbour.
-/

/-- The whole number nearest to `num / den`; of two, the even one. -/
def roundToEven (num den : Nat) : Nat :=
  let whole := num / den
  let twice := 2 * (num % den)
  if twice < den then whole
  else if den < twice then whole + 1
  else whole + whole % 2

def scaleDown (num den : Nat) (exponent : Int) : Nat × Nat :=
  if exponent < 0 then (num * twoPow exponent.natAbs, den) else (num, den * twoPow exponent.natAbs)

/-- The exponent at which `num / den` has a whole part of 53 bits, and no less
than the smallest exponent of a double. -/
def scaleOf (num den : Nat) : Int :=
  let guess := max ((num.log2 : Int) - (den.log2 : Int) - 53) (-1074)
  let scaled := scaleDown num den guess
  if scaled.1 / scaled.2 < twoPow 53 then guess else guess + 1

/-- The double nearest to `num / den`, infinite when there is no finite one. -/
def nearestFloat (negative : Bool) (num den : Nat) : Float :=
  let sign := if negative then twoPow 63 else 0
  let exponent := scaleOf num den
  let scaled := scaleDown num den exponent
  let mantissa := roundToEven scaled.1 scaled.2
  let bits :=
    if mantissa < twoPow 52 then mantissa
    else min ((exponent + 1074).toNat * twoPow 52 + mantissa) (2047 * twoPow 52)
  Float.ofBits (UInt64.ofNat (sign + bits))

end Scriptlet
