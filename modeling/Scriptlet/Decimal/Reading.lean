import Scriptlet.Decimal.Binary64

/-!
# Reading numbers

Whole numbers and floats as they are accepted in literals and in input lines.
A reader takes all of the text or nothing.
-/

namespace Scriptlet
namespace Reading

def isDigit (c : Char) : Bool :=
  '0' ≤ c && c ≤ '9'

def digitValue (c : Char) : Nat :=
  c.toNat - '0'.toNat

def digitsValue (cs : List Char) : Nat :=
  cs.foldl (fun n c => 10 * n + digitValue c) 0

/-- Splits off a sign; the flag says whether it was a minus. -/
def splitSign : List Char -> Bool × List Char
  | [] => (false, [])
  | c :: cs =>
      if c = '-' then (true, cs)
      else if c = '+' then (false, cs)
      else (false, c :: cs)

def natural? (cs : List Char) : Option Nat :=
  if cs.isEmpty || !cs.all isDigit then none else some (digitsValue cs)

def int64? (text : String) : Option Int64 :=
  let (negative, rest) := splitSign text.toList
  match natural? rest with
  | none => none
  | some n =>
      let value : Int := if negative then -n else n
      if FitsInt64 value then some (Int64.ofInt value) else none

/-!
# Floats

A number has digits on at least one side of its point; `inf`, `infinity` and
`nan` are read in any case.
-/

/-- The double nearest to `digits * 10 ^ scale`.  Outside the given powers of
ten the answer no longer depends on the digits. -/
def floatOf (negative : Bool) (digits : Nat) (digitCount : Nat) (scale : Int) : Float :=
  if digits = 0 then
    nearestFloat negative 0 1
  else if digitCount + scale > 400 then
    nearestFloat negative (twoPow 1100) 1
  else if digitCount + scale < -400 then
    nearestFloat negative 0 1
  else if scale < 0 then
    nearestFloat negative digits (tenPow scale.natAbs)
  else
    nearestFloat negative (digits * tenPow scale.natAbs) 1

def exponent? : List Char -> Option Int
  | [] => some 0
  | c :: cs =>
      if c = 'e' || c = 'E' then
        let (negative, rest) := splitSign cs
        (natural? rest).map fun n => if negative then -n else n
      else
        none

def magnitude? (negative : Bool) (cs : List Char) : Option Float :=
  let whole := cs.takeWhile isDigit
  let rest := cs.drop whole.length
  let (fraction, tail) :=
    match rest with
    | '.' :: more =>
        let digits := more.takeWhile isDigit
        (digits, more.drop digits.length)
    | _ => ([], rest)
  if whole.isEmpty && fraction.isEmpty then
    none
  else
    (exponent? tail).map fun exponent =>
      let digits := digitsValue (whole ++ fraction)
      let count := ((whole ++ fraction).dropWhile (· == '0')).length
      floatOf negative digits count (exponent - fraction.length)

def float? (text : String) : Option Float :=
  let (negative, rest) := splitSign text.toList
  let word := String.ofList (rest.map Char.toLower)
  if word = "inf" || word = "infinity" then
    some (nearestFloat negative (twoPow 1100) 1)
  else if word = "nan" then
    some (Float.ofBits 0x7ff8000000000000)
  else
    magnitude? negative rest

end Reading
end Scriptlet
