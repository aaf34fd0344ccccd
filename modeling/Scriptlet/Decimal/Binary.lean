/-!
# Binary numbers taken apart

A floating-point number is a sign, an integer mantissa and a power of two, or it is infinite, or
it is not a number at all. `BinaryParts.ofFloat` reads these from the 64 bits, so that what is
said about the text of a number is said about integers.
-/

namespace Scriptlet

/-- What the bits of a number say. -/
inductive BinaryParts
  | notANumber
  | infinite (negative : Bool)
  /-- The number `± mantissa * 2 ^ exponent`. -/
  | finite (negative : Bool) (mantissa : Nat) (exponent : Int)
deriving DecidableEq

/-- The bit above the 52 bits of a fraction. -/
def leadingBit : Nat := 1 <<< 52

namespace BinaryParts

/-- One sign bit, eleven exponent bits and 52 fraction bits. The exponent field `0` has no implicit
leading one, and the field `2047` is kept for what is not finite. -/
def ofBits (bits : Nat) : BinaryParts :=
  let negative := bits.testBit 63
  let field : Nat := (bits >>> 52) % 2048
  let fraction : Nat := bits % leadingBit
  if field = 2047 then
    if fraction = 0 then infinite negative else notANumber
  else if field = 0 then finite negative fraction (-1074)
  else finite negative (fraction + leadingBit) (field - 1075)

def ofFloat (x : Float) : BinaryParts := ofBits x.toBits.toNat

end BinaryParts

end Scriptlet
