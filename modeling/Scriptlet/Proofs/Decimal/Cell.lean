import Mathlib
import Scriptlet.Proofs.Decimal.Rounding
import Scriptlet.Proofs.Decimal.Shortest

/-!
# Cells of numbers do not overlap

The cell of a binary number reaches halfway to its neighbours. Where two cells meet, the end that
they share belongs to the one with the even mantissa, as one of two neighbouring mantissas is even.
So a decimal that is in the cell of a number is in no other cell, and the shortest decimal of a
number is in its cell: it stands for that number alone.

## Main definitions

* `Decimal.value` — the number that a decimal is
* `Cell.Contains` — the numbers in a cell

## Main results

* `Cell.contains_ofBinary_unique` — cells do not overlap
* `Decimal.contains_shortest` — the shortest decimal of a number is in its cell
-/

namespace Scriptlet

/-- The number that a decimal is. -/
def Decimal.value (d : Decimal) : ℚ := d.significand * 10 ^ d.exponent

namespace Cell

/-- A number is in the cell. -/
def Contains (c : Cell) (q : ℚ) : Prop :=
  if c.closed then (c.low : ℚ) ≤ c.denominator * q ∧ c.denominator * q ≤ c.high
  else (c.low : ℚ) < c.denominator * q ∧ c.denominator * q < c.high

/-- A point of a grid is in the cell exactly if its value is. -/
theorem holds_iff {c : Cell} {exponent : Int} {n : Nat} :
    c.Holds exponent n ↔ c.Contains (Decimal.value ⟨n, exponent⟩) := by
  have hfiner : (0 : ℚ) < finer exponent := by
    rw [finer, tenTo_eq]
    positivity
  have hvalue : (c.denominator * Decimal.value ⟨n, exponent⟩) * finer exponent =
      ((n * c.unit exponent : Nat) : ℚ) := by
    have hpow : (10 : ℚ) ^ exponent * 10 ^ (-exponent).toNat = 10 ^ exponent.toNat :=
      zpow_mul_toNat (by norm_num) exponent
    rw [Decimal.value, finer, unit, tenTo_eq, tenTo_eq]
    push_cast
    rw [← hpow]
    ring
  have hle (a : Nat) : a * finer exponent ≤ n * c.unit exponent ↔
      (a : ℚ) ≤ c.denominator * Decimal.value ⟨n, exponent⟩ := by
    rw [← Nat.cast_le (α := ℚ), ← hvalue, Nat.cast_mul, mul_le_mul_iff_left₀ hfiner]
  have hge (a : Nat) : n * c.unit exponent ≤ a * finer exponent ↔
      c.denominator * Decimal.value ⟨n, exponent⟩ ≤ (a : ℚ) := by
    rw [← Nat.cast_le (α := ℚ), ← hvalue, Nat.cast_mul, mul_le_mul_iff_left₀ hfiner]
  rw [Holds, within, Contains]
  split
  · rw [Bool.and_eq_true, decide_eq_true_eq, decide_eq_true_eq, hle, hge]
  · rw [Bool.and_eq_true, decide_eq_true_eq, decide_eq_true_eq, ← not_le, ← not_le, hle, hge,
      not_le, not_le]

/-! ### The ends of a cell -/

section

variable {m : Nat} {e : Int} {q : ℚ}

/-- How far the lower end of a cell is from its number, in quarters of a unit. -/
def margin (m : Nat) (e : Int) : Nat := if m = leadingBit ∧ e ≠ -1074 then 1 else 2

theorem margin_le (m : Nat) (e : Int) : margin m e ≤ 2 := by
  rw [margin]
  split <;> omega

/-- The cell of a number, in quarters of a unit. -/
theorem contains_ofBinary_iff (hm : 0 < m) :
    (ofBinary m e).Contains q ↔
      if m % 2 = 0 then (4 * m - margin m e) * 2 ^ e ≤ 4 * q ∧ 4 * q ≤ (4 * m + 2) * 2 ^ e
      else (4 * m - margin m e) * 2 ^ e < 4 * q ∧ 4 * q < (4 * m + 2) * 2 ^ e := by
  have hD : (0 : ℚ) < 2 ^ (2 - e).toNat := by positivity
  have hscale : (4 : ℚ) * 2 ^ (e - 2).toNat = 2 ^ e * 2 ^ (2 - e).toNat := by
    have hfour : (4 : ℚ) = 2 ^ (2 : ℤ) := by norm_num
    rw [hfour, ← zpow_natCast, ← zpow_natCast, ← zpow_add₀ (by norm_num), ← zpow_add₀ (by norm_num)]
    congr 1
    omega
  have hlow : 4 * ((ofBinary m e).low : ℚ) = (4 * m - margin m e) * 2 ^ e * 2 ^ (2 - e).toNat := by
    have hmargin : margin m e ≤ 4 * m := (margin_le m e).trans (by omega)
    rw [mul_assoc, ← hscale, show (ofBinary m e).low = (4 * m - margin m e) * 1 <<< (e - 2).toNat
      from rfl, Nat.one_shiftLeft, Nat.cast_mul, Nat.cast_sub hmargin]
    push_cast
    ring
  have hhigh : 4 * ((ofBinary m e).high : ℚ) = (4 * m + 2) * 2 ^ e * 2 ^ (2 - e).toNat := by
    rw [mul_assoc, ← hscale, high_ofBinary]
    push_cast
    ring
  have hvalue : 4 * (((ofBinary m e).denominator : ℚ) * q) = 4 * q * 2 ^ (2 - e).toNat := by
    rw [denominator_ofBinary]
    push_cast
    ring
  have hfour : (0 : ℚ) < 4 := by norm_num
  have hclosed : (ofBinary m e).closed = true ↔ m % 2 = 0 := decide_eq_true_iff
  rw [Contains]
  split <;> rename_i hc
  · rw [if_pos (hclosed.1 hc)]
    refine and_congr ?_ ?_
    · rw [← mul_le_mul_iff_right₀ hfour, hlow, hvalue, mul_le_mul_iff_left₀ hD]
    · rw [← mul_le_mul_iff_right₀ hfour, hhigh, hvalue, mul_le_mul_iff_left₀ hD]
  · rw [if_neg (mt hclosed.2 hc)]
    refine and_congr ?_ ?_
    · rw [← mul_lt_mul_iff_right₀ hfour, hlow, hvalue, mul_lt_mul_iff_left₀ hD]
    · rw [← mul_lt_mul_iff_right₀ hfour, hhigh, hvalue, mul_lt_mul_iff_left₀ hD]

/-- The number of a cell is in the cell. -/
theorem contains_self (hm : 0 < m) : (ofBinary m e).Contains (m * 2 ^ e) := by
  have hunit : (0 : ℚ) < 2 ^ e := by positivity
  have hmargin : (0 : ℚ) < margin m e := by
    rw [margin]
    split <;> norm_num
  rw [contains_ofBinary_iff hm]
  split <;> constructor <;> nlinarith

/-- What is in a cell is not outside its ends, nor at an end if the mantissa is odd. -/
theorem Contains.bounds (h : (ofBinary m e).Contains q) (hm : 0 < m) :
    (4 * m - margin m e) * 2 ^ e ≤ 4 * q ∧ 4 * q ≤ (4 * m + 2) * 2 ^ e ∧
      (m % 2 = 1 → 4 * q < (4 * m + 2) * 2 ^ e) := by
  rw [contains_ofBinary_iff hm] at h
  split at h
  · exact ⟨h.1, h.2, fun hodd => by omega⟩
  · exact ⟨h.1.le, h.2.le, fun _ => h.2⟩

open Binary

variable {m' : Nat} {e' : Int}

/-- Cells of one exponent do not overlap. -/
theorem mantissa_le_of_contains (hm : 0 < m) (hm' : 0 < m') (h : (ofBinary m e).Contains q)
    (h' : (ofBinary m' e).Contains q) : m' ≤ m := by
  have hunit : (0 : ℚ) < 2 ^ e := by positivity
  have hmargin : (margin m' e : ℚ) ≤ 2 := by exact_mod_cast margin_le m' e
  rw [contains_ofBinary_iff hm] at h
  rw [contains_ofBinary_iff hm'] at h'
  by_contra hlt
  have hnext : (m : ℚ) + 1 ≤ m' := by exact_mod_cast Nat.not_le.1 hlt
  have hends : (4 * m + 2) * 2 ^ e ≤ (4 * m' - margin m' e) * (2 : ℚ) ^ e :=
    mul_le_mul_of_nonneg_right (by linarith) hunit.le
  -- where the cells meet, one of the mantissas is odd, and the end is not in its cell
  split at h <;> split at h'
  · have hfar : (m : ℚ) + 2 ≤ m' := by exact_mod_cast (show m + 2 ≤ m' by omega)
    have hends : (4 * m + 2) * 2 ^ e < (4 * m' - margin m' e) * (2 : ℚ) ^ e :=
      mul_lt_mul_of_pos_right (by linarith) hunit
    linarith
  all_goals linarith

/-- Where the first cell of an exponent starts that is not the least one. -/
theorem start_le (hcanonical : Canonical m e) (he : e ≠ -1074) :
    (2 ^ 54 - 1 : ℚ) ≤ 4 * m - margin m e := by
  have hfull := hcanonical.full.resolve_right he
  rw [margin]
  split
  · have : (2 ^ 52 : ℚ) ≤ m := by exact_mod_cast hfull
    push_cast
    linarith
  · rename_i hnarrow
    have hne : m ≠ 2 ^ 52 := fun h => hnarrow ⟨h, he⟩
    have : (2 ^ 52 + 1 : ℚ) ≤ m := by exact_mod_cast (show 2 ^ 52 + 1 ≤ m by omega)
    push_cast
    linarith

/-- A number in a cell is below the cells of larger exponents. -/
theorem exponent_le_of_contains (hm : 0 < m) (hm' : 0 < m') (hcanonical : Canonical m e)
    (hcanonical' : Canonical m' e') (h : (ofBinary m e).Contains q)
    (h' : (ofBinary m' e').Contains q) : e' ≤ e := by
  by_contra hlt
  have hlow := (h'.bounds hm').1
  obtain ⟨-, hhigh, hodd⟩ := h.bounds hm
  have hunit : (0 : ℚ) < 2 ^ e := by positivity
  have hdouble : (2 : ℚ) * 2 ^ e ≤ 2 ^ e' := by
    rw [← zpow_one_add₀ (by norm_num)]
    exact zpow_le_zpow_right₀ (by norm_num) (by omega)
  have hleast : e' ≠ -1074 := by have := hcanonical.exponent; omega
  -- the larger cell starts where the last of the smaller ones ends, which is odd
  have hquarters := start_le hcanonical' hleast
  have hstart : (2 ^ 55 - 2 : ℚ) * 2 ^ e ≤ 4 * q := by
    calc (2 ^ 55 - 2 : ℚ) * 2 ^ e = (2 ^ 54 - 1) * (2 * 2 ^ e) := by ring
      _ ≤ (4 * m' - margin m' e') * 2 ^ e' := by gcongr
      _ ≤ 4 * q := hlow
  have hmantissa := hcanonical.mantissa
  rcases Nat.mod_two_eq_zero_or_one m with heven | hmodd
  · have hless : (m : ℚ) + 2 ≤ 2 ^ 53 := by exact_mod_cast (show m + 2 ≤ 2 ^ 53 by omega)
    have : (4 * m + 2) * (2 : ℚ) ^ e < (2 ^ 55 - 2) * 2 ^ e :=
      mul_lt_mul_of_pos_right (by linarith) hunit
    linarith
  · have hless : (m : ℚ) + 1 ≤ 2 ^ 53 := by exact_mod_cast hmantissa
    have : (4 * m + 2) * (2 : ℚ) ^ e ≤ (2 ^ 55 - 2) * 2 ^ e :=
      mul_le_mul_of_nonneg_right (by linarith) hunit.le
    linarith [hodd hmodd]

/-- **Cells do not overlap.** -/
theorem contains_ofBinary_unique (hm : 0 < m) (hm' : 0 < m') (hcanonical : Canonical m e)
    (hcanonical' : Canonical m' e') (h : (ofBinary m e).Contains q)
    (h' : (ofBinary m' e').Contains q) : m = m' ∧ e = e' := by
  obtain rfl : e = e' := le_antisymm
    (exponent_le_of_contains hm' hm hcanonical' hcanonical h' h)
    (exponent_le_of_contains hm hm' hcanonical hcanonical' h h')
  exact ⟨le_antisymm (mantissa_le_of_contains hm' hm h' h) (mantissa_le_of_contains hm hm' h h'),
    rfl⟩

end

end Cell

namespace Decimal

open Cell

/-- The finest grid of a search has a point at the number itself. -/
theorem value_below_finest (m : Nat) (e : Int) :
    value ⟨(ofBinary m e).below (min e 0), min e 0⟩ = m * 2 ^ e := by
  have hbelow : (ofBinary m e).below (min e 0) = m * 2 ^ e.toNat * 5 ^ (-e).toNat := by
    have hfiner : finer (min e 0) = 2 ^ (-e).toNat * 5 ^ (-e).toNat := by
      rw [finer, tenTo_eq, ← Nat.mul_pow]
      congr 1
      omega
    have hsplit : 4 * 2 ^ (e - 2).toNat * 2 ^ (-e).toNat = 2 ^ e.toNat * 2 ^ (2 - e).toNat := by
      rw [show 4 = 2 ^ 2 from rfl, ← Nat.pow_add, ← Nat.pow_add, ← Nat.pow_add]
      congr 1
      omega
    rw [below, unit_finest, value_ofBinary, hfiner]
    refine Nat.div_eq_of_eq_mul_left (Nat.two_pow_pos _) ?_
    calc 4 * m * 2 ^ (e - 2).toNat * (2 ^ (-e).toNat * 5 ^ (-e).toNat)
        = m * (4 * 2 ^ (e - 2).toNat * 2 ^ (-e).toNat) * 5 ^ (-e).toNat := by ring
      _ = m * 2 ^ e.toNat * 5 ^ (-e).toNat * 2 ^ (2 - e).toNat := by rw [hsplit]; ring
  rw [value, hbelow]
  obtain ⟨n, rfl | rfl⟩ := Int.eq_nat_or_neg e
  · simp
  · have hzero : (-(n : Int)).toNat = 0 := by omega
    have hmin : min (-(n : Int)) 0 = -(n : Int) := by omega
    have hten : (10 : ℚ) ^ n = 2 ^ n * 5 ^ n := by rw [← mul_pow]; norm_num
    rw [hzero, hmin, neg_neg, Int.toNat_natCast, zpow_neg, zpow_neg, zpow_natCast, zpow_natCast,
      hten]
    push_cast
    field_simp

/-- **The shortest decimal of a number is in its cell.** -/
theorem contains_shortest (tie : Tie) {m : Nat} (hm : 0 < m) (e : Int) :
    (ofBinary m e).Contains (shortest tie m e).value := by
  rw [shortest]
  rcases search_cases (ofBinary m e) tie (min e 0) _ with ⟨n, exponent, hsearch, hpick⟩ | hsearch
  all_goals rw [hsearch]
  · exact holds_iff.1 (holds_of_pick? hpick).1
  · rw [value_below_finest]
    exact contains_self hm

/-- Shortest decimals have at most 58 bits, and no more than 324 places. -/
theorem shortest_small (tie : Tie) {m : Nat} {e : Int} (hm : 0 < m)
    (h : Binary.Canonical m e) :
    (shortest tie m e).significand < 2 ^ 58 ∧ -324 ≤ (shortest tie m e).exponent := by
  obtain ⟨g, hlow, hhigh⟩ := exists_mem_Ico_zpow (by positivity : (0 : ℚ) < 2 ^ (e - 1))
    (by norm_num : (1 : ℚ) < 10)
  have hunit : (2 : ℚ) ^ (e - 1) = 2 * 2 ^ (e - 2) := by
    rw [← zpow_one_add₀ two_ne_zero]
    congr 1
    omega
  have hg : g ≤ (shortest tie m e).exponent := by
    have : (0 : ℚ) < 2 ^ (e - 2) := by positivity
    exact le_exponent_shortest_of_lt tie e hm (by linarith)
  have hdecimal := ((contains_shortest tie hm e).bounds hm).2.1
  generalize shortest tie m e = d at hg hdecimal ⊢
  constructor
  · have hm53 : (m : ℚ) + 1 ≤ 2 ^ 53 := by exact_mod_cast h.mantissa
    have hgrid : (10 : ℚ) ^ g ≤ 10 ^ d.exponent := zpow_le_zpow_right₀ (by norm_num) hg
    have hten : (0 : ℚ) < 10 ^ d.exponent := by positivity
    have hless : (d.significand : ℚ) * 10 ^ d.exponent < 2 ^ 58 * 10 ^ d.exponent := by
      rw [zpow_add_one₀ (by norm_num)] at hhigh
      calc (d.significand : ℚ) * 10 ^ d.exponent ≤ (m + 1) * 2 ^ e := by
            rw [value] at hdecimal
            have : (0 : ℚ) < 2 ^ e := by positivity
            linarith
        _ ≤ 2 ^ 53 * (2 * 2 ^ (e - 1)) := by
          rw [← zpow_one_add₀ two_ne_zero]
          gcongr
          · norm_num
          · omega
        _ < 2 ^ 58 * 10 ^ d.exponent := by linarith
    exact_mod_cast lt_of_mul_lt_mul_right hless hten.le
  · have hinv {a b : Nat} (hab : 2 ^ a ≤ 10 ^ b) : (10 : ℚ) ^ (-b : ℤ) ≤ 2 ^ (-a : ℤ) := by
      rw [zpow_neg, zpow_neg, zpow_natCast, zpow_natCast]
      exact inv_anti₀ (by positivity) (by exact_mod_cast hab)
    have hleast := hinv (by decide +kernel : 2 ^ 1075 ≤ 10 ^ 324)
    have hless : (10 : ℚ) ^ (-324 : ℤ) < 10 ^ (g + 1) :=
      calc (10 : ℚ) ^ (-324 : ℤ) ≤ 2 ^ (-1075 : ℤ) := hleast
        _ ≤ 2 ^ (e - 1) := zpow_le_zpow_right₀ (by norm_num) (by have := h.exponent; omega)
        _ < 10 ^ (g + 1) := hhigh
    have := (zpow_lt_zpow_iff_right₀ (by norm_num : (1 : ℚ) < 10)).1 hless
    omega

end Decimal

end Scriptlet
