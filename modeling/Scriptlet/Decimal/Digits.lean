import Scriptlet.Decimal.Binary64

/-!
# Decimal digits of a double

The shortest digits of a double are the fewest that no other double is nearer
to.  For each number of digits the two neighbours of the value on the decimal
grid are tried; the first grid with a hit wins, and of two hits the nearer, a
tie going up.
-/

namespace Scriptlet

def natDigits (n : Nat) : List Char :=
  Nat.toDigits 10 n

/-- The positive number `digits * 10 ^ scale`. -/
structure Decimal where
  digits : Nat
  scale : Int
deriving DecidableEq, Repr

namespace Decimal

def normalized (limit : Nat) (d : Decimal) : Decimal :=
  match limit with
  | 0 => d
  | limit + 1 =>
      if d.digits % 10 = 0 && d.digits ≠ 0 then
        normalized limit { digits := d.digits / 10, scale := d.scale + 1 }
      else
        d

/-!
# The interval of a double

All three numbers are counted in quarters of the last binary place, so that the
ends of the interval are whole.
-/

structure Interval where
  low : Nat
  middle : Nat
  high : Nat
  closed : Bool
  exponent : Int
deriving DecidableEq, Repr

namespace Interval

/-- The real numbers that round to `mantissa * 2 ^ exponent`.  Below a power of
two the neighbour is only half as far. -/
def around (mantissa : Nat) (exponent : Int) : Interval :=
  let below := if mantissa = twoPow 52 && exponent ≠ -1074 then 1 else 2
  { low := 4 * mantissa - below
    middle := 4 * mantissa
    high := 4 * mantissa + 2
    closed := mantissa % 2 == 0
    exponent := exponent - 2 }

/-- The interval on a grid of `10 ^ scale`: `(low, middle, high, unit)`, where a
point `n` of the grid stands at `n * unit`. -/
def onGrid (i : Interval) (scale : Int) : Nat × Nat × Nat × Nat :=
  let up := (if 0 ≤ i.exponent then twoPow i.exponent.natAbs else 1) *
    (if scale < 0 then tenPow scale.natAbs else 1)
  let unit := (if i.exponent < 0 then twoPow i.exponent.natAbs else 1) *
    (if 0 ≤ scale then tenPow scale.natAbs else 1)
  (i.low * up, i.middle * up, i.high * up, unit)

/-- The nearest grid point inside the interval, if one of the two neighbours of
the value is inside. -/
def hit? (i : Interval) (scale : Int) : Option Decimal :=
  let (low, middle, high, unit) := i.onGrid scale
  let floor := middle / unit
  let inside (n : Nat) : Bool :=
    if i.closed then low ≤ n * unit && n * unit ≤ high else low < n * unit && n * unit < high
  let up := inside (floor + 1)
  let down := inside floor
  if up && (!down || unit ≤ 2 * (middle % unit)) then
    some { digits := floor + 1, scale := scale }
  else if down then
    some { digits := floor, scale := scale }
  else
    none

def leadingPlace (i : Interval) : Int :=
  if 0 ≤ i.exponent then
    ((natDigits (i.middle * twoPow i.exponent.natAbs)).length : Int) - 1
  else
    let den := twoPow i.exponent.natAbs
    if den ≤ i.middle then
      ((natDigits (i.middle / den)).length : Int) - 1
    else
      -((natDigits ((den - 1) / i.middle)).length : Int)

def firstHit (i : Interval) (place : Int) : Nat -> Nat -> Decimal
  | 0, count => (i.hit? (place - count)).getD { digits := 0, scale := 0 }
  | limit + 1, count =>
      match i.hit? (place - count) with
      | some d => d
      | none => firstHit i place limit (count + 1)

end Interval

/-- The shortest digits of `mantissa * 2 ^ exponent`, which is not zero. -/
def shortest (mantissa : Nat) (exponent : Int) : Decimal :=
  let i := Interval.around mantissa exponent
  normalized 20 (i.firstHit i.leadingPlace 17 0)

end Decimal
end Scriptlet
