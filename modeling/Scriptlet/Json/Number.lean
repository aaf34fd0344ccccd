import Scriptlet.Decimal.Positional

/-!
# Numbers of JSON

A number of JSON is a row of digits with a sign, a fraction and an exponent, the last two of which
may be missing. Whether it stands for a whole number is decided by how it is written: `1.0` does
not.

`JsonNumber.ofFloat?` writes the shortest decimal. `JsonNumber.float?` reads a number in binary
arithmetic of 64 bits: it collects leading digits as long as they fit into 64 bits and then scales
by a power of ten, so that it rounds up to three times. Its answer may be off by a few of the last
bits.
-/

namespace Scriptlet

/-- A number as it is written. -/
structure JsonNumber where
  negative : Bool
  /-- The digits before the point. -/
  whole : List Char
  /-- The digits after the point, if there is one. -/
  fraction : Option (List Char)
  /-- Whether the exponent is negative, and its digits, if there is one. -/
  exponent : Option (Bool × List Char)
deriving DecidableEq

namespace JsonNumber

/-- A number written out, its exponent always with a sign. -/
def write (n : JsonNumber) : List Char :=
  signText n.negative ++ n.whole
    ++ (match n.fraction with
      | some ds => '.' :: ds
      | none => [])
    ++ (match n.exponent with
      | some (negative, ds) => 'e' :: (if negative then '-' else '+') :: ds
      | none => [])

def ofNat (n : Nat) : JsonNumber := ⟨false, natDigits n, none, none⟩

/-- A decimal as it is written: with a point and all its places if the point stands at most four
zeros before its first digit and at most 16 places after it, and else with one digit before the
point and an exponent. -/
def ofDecimal (negative : Bool) (d : Decimal) : JsonNumber :=
  let point := d.point
  if 16 < point ∨ point < -4 then
    let power := point - 1
    ⟨negative, d.digits.take 1, if d.digits.length ≤ 1 then none else some (d.digits.drop 1),
      some (power < 0, natDigits power.natAbs)⟩
  else if 0 ≤ d.exponent then
    ⟨negative, d.digits ++ Decimal.zeros d.exponent.toNat, some ['0'], none⟩
  else if 0 < point then
    ⟨negative, d.digits.take point.toNat, some (d.digits.drop point.toNat), none⟩
  else ⟨negative, ['0'], some (Decimal.zeros (-point).toNat ++ d.digits), none⟩

/-- The number that stands for a finite binary number. A tie between two shortest decimals goes to
the even one. -/
def ofFloat? (x : Float) : Option JsonNumber :=
  match BinaryParts.ofFloat x with
  | .notANumber | .infinite _ => none
  | .finite negative mantissa exponent =>
    if mantissa = 0 then some ⟨negative, ['0'], some ['0'], none⟩
    else some (ofDecimal negative (Decimal.shortest .even mantissa exponent))

/-- The natural number that is written without sign, point and exponent. -/
def nat? (n : JsonNumber) : Option Nat :=
  match n with
  | ⟨false, whole, none, none⟩ => some (digitsValue whole)
  | _ => none

/-- Appends digits to a number as long as the result fits into 64 bits; gives the digits that are
left too. -/
def appendDigits (n : Nat) : List Char → Nat × List Char
  | [] => (n, [])
  | c :: cs =>
    let next := 10 * n + digitValue c
    if next < UInt64.size then appendDigits next cs else (n, c :: cs)

/-- Divides by the largest power of ten again and again, unless nothing is left to divide. -/
def shrink (x : Float) : (times : Nat) → Float
  | 0 => x
  | times + 1 => if x == 0 then x else shrink (x / Float.ofScientific 1 false 308) times

/-- A number times a power of ten, unless that is too large. -/
def scale? (n : Nat) (exponent : Int) : Option Float :=
  let x := Float.ofNat n
  if 308 < exponent then
    if x == 0 then some x else none
  else if 0 ≤ exponent then
    let y := x * Float.ofScientific 1 false exponent.toNat
    if y.isInf then none else some y
  else
    let power := exponent.natAbs
    let times := (power - 1) / 308
    some (shrink x times / Float.ofScientific 1 false (power - 308 * times))

/-- The binary number that a number is read as, unless it is too large. -/
def float? (n : JsonNumber) : Option Float :=
  let fraction := n.fraction.getD []
  let (significand, skipped) := appendDigits 0 n.whole
  let (significand, unused) := appendDigits significand fraction
  let power : Int :=
    match n.exponent with
    | some (true, ds) => -(digitsValue ds : Nat)
    | some (false, ds) => digitsValue ds
    | none => 0
  let exponent := skipped.length - (fraction.length - unused.length : Nat) + power
  (scale? significand exponent).map fun x => if n.negative then -x else x

end JsonNumber

end Scriptlet
