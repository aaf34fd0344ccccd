import Scriptlet.Decimal.Binary
import Scriptlet.Decimal.Digits

/-!
# Shortest decimals

The shortest decimal of a binary number is the one with the fewest digits among those that round
back to it, and among these the nearest.

`Cell` holds the interval of reals that round to a number, as fractions over one denominator. A
decimal grid is the set of multiples of a power of ten. `Cell.pick?` looks for a point of one grid
inside the cell; only the two neighbours of the number itself need looking at. `Cell.shortest`
walks from a grid too coarse to have a point there to a grid that holds the number itself, and
stops at the first grid with a hit.
-/

namespace Scriptlet

/-- The number `significand * 10 ^ exponent`. -/
structure Decimal where
  significand : Nat
  exponent : Int
deriving DecidableEq

/-- Which of two equally near neighbours is taken. -/
inductive Tie
  /-- The larger one. -/
  | up
  /-- The even one. -/
  | even
deriving DecidableEq

/-- The choice between `n` and `n + 1`. -/
def Tie.choose : Tie → Nat → Nat
  | up, n => n + 1
  | even, n => if n % 2 = 0 then n else n + 1

/-- The reals that round to a positive number: from `low / denominator` to `high / denominator`,
with the ends if `closed`, about the number `value / denominator`. -/
structure Cell where
  low : Nat
  value : Nat
  high : Nat
  denominator : Nat
  closed : Bool

namespace Cell

/-- The cell of `mantissa * 2 ^ exponent`. Its ends lie halfway to the neighbouring numbers; the
neighbour below a power of two is only half as far away. Ties of the binary rounding go to the even
mantissa, so the ends belong to the cell when the mantissa is even. -/
def ofBinary (mantissa : Nat) (exponent : Int) : Cell :=
  let scale := 1 <<< (exponent - 2).toNat
  let narrow := mantissa = leadingBit ∧ exponent ≠ -1074
  { low := (4 * mantissa - if narrow then 1 else 2) * scale
    value := 4 * mantissa * scale
    high := (4 * mantissa + 2) * scale
    denominator := 1 <<< (2 - exponent).toNat
    closed := mantissa % 2 = 0 }

/-- Is `n / unit` between `low / unit` and `high / unit`? -/
def within (closed : Bool) (low high n : Nat) : Bool :=
  if closed then low ≤ n && n ≤ high else low < n && n < high

/-- The multiple of `10 ^ exponent` in the cell that is nearest to its number, if there is one. -/
def pick? (c : Cell) (tie : Tie) (exponent : Int) : Option Nat :=
  let finer := tenTo (-exponent).toNat
  let unit := c.denominator * tenTo exponent.toNat
  let value := c.value * finer
  let inside n := within c.closed (c.low * finer) (c.high * finer) (n * unit)
  let below := value / unit
  let distance := 2 * (value % unit)
  match inside below, inside (below + 1) with
  | true, true =>
    if distance < unit then some below
    else if unit < distance then some (below + 1)
    else some (tie.choose below)
  | true, false => some below
  | false, true => some (below + 1)
  | false, false => none

/-- The first hit on the grids `10 ^ (finest + steps)` down to `10 ^ finest`. -/
def search (c : Cell) (tie : Tie) (finest : Int) : Nat → Decimal
  | 0 => ⟨c.value * tenTo (-finest).toNat / (c.denominator * tenTo finest.toNat), finest⟩
  | steps + 1 =>
    match c.pick? tie (finest + (steps + 1)) with
    | some n => ⟨n, finest + (steps + 1)⟩
    | none => c.search tie finest steps

end Cell

namespace Decimal

/-- A power of ten above `2 ^ t`, as an exponent: `8 < 10 < 16`. -/
def exponentAbove (t : Int) : Int :=
  if 0 ≤ t then t / 3 + 1 else -((-t) / 4)

/-- The shortest decimal of `mantissa * 2 ^ exponent`, for a positive mantissa. -/
def shortest (tie : Tie) (mantissa : Nat) (exponent : Int) : Decimal :=
  let coarsest := exponentAbove (mantissa.log2 + 2 + exponent)
  let finest := min exponent 0
  (Cell.ofBinary mantissa exponent).search tie finest (coarsest - finest).toNat

end Decimal

end Scriptlet
