/-!
# Rows of digits

Natural numbers as rows of decimal digits, the largest first.
-/

namespace Scriptlet

/-- The digits of a natural number. -/
def natDigits (n : Nat) : List Char := Nat.toDigits 10 n

/-- The value of a digit. -/
def digitValue (c : Char) : Nat := c.toNat - '0'.toNat

/-- The number that a row of digits stands for. -/
def digitsValue (ds : List Char) : Nat := ds.foldl (fun n c => 10 * n + digitValue c) 0

/-- A power of ten. -/
def tenTo (n : Nat) : Nat := Nat.pow 10 n

end Scriptlet
