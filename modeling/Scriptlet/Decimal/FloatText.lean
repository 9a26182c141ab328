import Scriptlet.Decimal.Digits

/-!
# The text of a double

Two layouts are in use.  The plain one never has an exponent: a whole number is
written out exactly and keeps `.0`, any other number gets its shortest digits.
The scientific one always takes the shortest digits and leaves the plain form
for very small and very large magnitudes.
-/

namespace Scriptlet
namespace FloatText

def signed (negative : Bool) (text : String) : String :=
  if negative then "-" ++ text else text

def infinity : String := "inf"

def notANumber : String := "NaN"

def whole? (d : Dyadic) : Option Nat :=
  if 0 ≤ d.exponent then
    some (d.mantissa * twoPow d.exponent.natAbs)
  else if d.mantissa % twoPow d.exponent.natAbs = 0 then
    some (d.mantissa / twoPow d.exponent.natAbs)
  else
    none

/-- Digits with the point at its place.  A whole number keeps one zero behind
the point. -/
def positional (d : Decimal) : String :=
  let digits := natDigits d.digits
  if 0 ≤ d.scale then
    String.ofList (digits ++ List.replicate d.scale.natAbs '0') ++ ".0"
  else
    let places := d.scale.natAbs
    let padded := List.replicate (places + 1 - digits.length) '0' ++ digits
    let cut := padded.length - places
    String.ofList (padded.take cut) ++ "." ++ String.ofList (padded.drop cut)

def scientific (d : Decimal) : String :=
  match natDigits d.digits with
  | [] => ""
  | lead :: rest =>
      let exponent : Int := d.scale + rest.length
      let fraction := if rest.isEmpty then "" else "." ++ String.ofList rest
      String.singleton lead ++ fraction ++ "e" ++ toString exponent

def leadingPower (d : Decimal) : Int :=
  d.scale + (natDigits d.digits).length - 1

/-- The powers of ten that the second layout still writes positionally. -/
structure Layout where
  least : Int
  most : Int

def Layout.general : Layout :=
  { least := -4, most := 15 }

def plain (x : Float) : String :=
  match Binary64.ofFloat x with
  | .notANumber => notANumber
  | .infinite negative => signed negative infinity
  | .finite d =>
      match whole? d with
      | some n => signed d.negative (String.ofList (natDigits n) ++ ".0")
      | none => signed d.negative (positional (Decimal.shortest d.mantissa d.exponent))

def general (layout : Layout) (x : Float) : String :=
  match Binary64.ofFloat x with
  | .notANumber => notANumber
  | .infinite negative => signed negative infinity
  | .finite d =>
      if d.mantissa = 0 then
        signed d.negative "0.0"
      else
        let digits := Decimal.shortest d.mantissa d.exponent
        let power := leadingPower digits
        if layout.least ≤ power && power ≤ layout.most then
          signed d.negative (positional digits)
        else
          signed d.negative (scientific digits)

end FloatText
end Scriptlet
