import Scriptlet.Decimal.Digits
import Scriptlet.Decimal.Shortest

/-!
# Decimals written out

A decimal is a row of digits and the place of its point. `Decimal.positional` writes all places
out, padding with zeros. `numberText` is the text of a number in this form.
-/

namespace Scriptlet

namespace Decimal

/-- The digits of the significand, the largest first. -/
def digits (d : Decimal) : List Char := natDigits d.significand

/-- How many digits stand before the point; not positive if zeros follow it first. -/
def point (d : Decimal) : Int := d.digits.length + d.exponent

def zeros (n : Nat) : List Char := List.replicate n '0'

/-- All places written out. An integer has no point. -/
def positional (d : Decimal) : List Char :=
  let point := d.point
  if 0 ≤ d.exponent then d.digits ++ zeros d.exponent.toNat
  else if 0 < point then d.digits.take point.toNat ++ '.' :: d.digits.drop point.toNat
  else '0' :: '.' :: zeros (-point).toNat ++ d.digits

end Decimal

/-- The sign of a number, if it is written. -/
def signText (negative : Bool) : List Char := if negative then ['-'] else []

/-- A number as scripts show it: the fewest digits that read back, all places written out, no point
in an integer. A tie between two shortest decimals goes up. -/
def numberText (x : Float) : String :=
  match BinaryParts.ofFloat x with
  | .notANumber => "NaN"
  | .infinite negative => String.ofList (signText negative ++ "inf".toList)
  | .finite negative mantissa exponent =>
    if mantissa = 0 then String.ofList (signText negative ++ ['0'])
    else
      String.ofList (signText negative ++ (Decimal.shortest .up mantissa exponent).positional)

end Scriptlet
