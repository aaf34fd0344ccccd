import Mathlib
import Scriptlet.Decimal.Shortest

/-!
# What shortest decimals are like

A search for the shortest decimal ends at a point of a grid that is in the cell of the number, next
to the number itself, or else at the number on the finest grid. So the decimal is not zero, it does
not pass the upper end of the cell, and it is not finer than a grid for which the cell is wide
enough.

## Main definitions

* `Cell.unit`, `Cell.finer` — a grid in the parts that a cell counts in
* `Cell.Holds` — a point of a grid is in the cell

## Main results

* `Cell.holds_of_pick?` — a hit is in the cell, next to the number
* `Cell.pick?_ne_none_of_wide` — a wide cell has a hit
* `Decimal.shortest_le_high` — a shortest decimal does not pass the end of the cell
-/

namespace Scriptlet

theorem tenTo_eq (n : Nat) : tenTo n = 10 ^ n := rfl

/-- A power as a fraction of powers with natural exponents. -/
theorem zpow_mul_toNat {a : ℚ} (ha : a ≠ 0) (t : Int) :
    a ^ t * a ^ (-t).toNat = a ^ t.toNat := by
  rw [← zpow_natCast, ← zpow_natCast, ← zpow_add₀ ha]
  congr 1
  omega

theorem Tie.choose_eq (tie : Tie) (n : Nat) : tie.choose n = n ∨ tie.choose n = n + 1 := by
  cases tie with
  | up => exact .inr rfl
  | even =>
    rw [choose]
    split
    · exact .inl rfl
    · exact .inr rfl

namespace Cell

variable (c : Cell) (exponent : Int)

/-- The distance of two points of the grid `10 ^ exponent`, in the parts that the cell counts in. -/
def unit : Nat := c.denominator * tenTo exponent.toNat

/-- How many parts one part of the cell is on this grid. -/
def finer (exponent : Int) : Nat := tenTo (-exponent).toNat

/-- The point below the number of the cell. -/
def below : Nat := c.value * finer exponent / c.unit exponent

/-- The point `n` of the grid is in the cell. -/
def Holds (n : Nat) : Prop :=
  within c.closed (c.low * finer exponent) (c.high * finer exponent) (n * c.unit exponent)

variable {c exponent}

theorem Holds.bounds {n : Nat} (h : c.Holds exponent n) :
    c.low * finer exponent ≤ n * c.unit exponent ∧
      n * c.unit exponent ≤ c.high * finer exponent := by
  rw [Holds, within] at h
  split at h <;> simp only [Bool.and_eq_true, decide_eq_true_eq] at h <;> omega

theorem holds_of_lt {n : Nat} (hlow : c.low * finer exponent < n * c.unit exponent)
    (hhigh : n * c.unit exponent < c.high * finer exponent) : c.Holds exponent n := by
  rw [Holds, within]
  split <;> simp only [Bool.and_eq_true, decide_eq_true_eq] <;> omega

variable {tie : Tie} {n : Nat}

/-- A hit on a grid is in the cell, and next to its number. -/
theorem holds_of_pick? (h : c.pick? tie exponent = some n) :
    c.Holds exponent n ∧ (n = c.below exponent ∨ n = c.below exponent + 1) := by
  rw [pick?] at h
  simp only at h
  split at h
  · rename_i hbelow habove
    have hn : n = c.below exponent ∨ n = c.below exponent + 1 := by
      split_ifs at h
      · exact .inl (Option.some.inj h).symm
      · exact .inr (Option.some.inj h).symm
      · exact (Option.some.inj h) ▸ tie.choose_eq _
    refine ⟨?_, hn⟩
    rcases hn with rfl | rfl
    · exact hbelow
    · exact habove
  · rename_i hbelow _
    exact Option.some.inj h ▸ ⟨hbelow, .inl rfl⟩
  · rename_i _ habove
    exact Option.some.inj h ▸ ⟨habove, .inr rfl⟩
  · cases h

/-- If a neighbour of the number is in the cell then there is a hit. -/
theorem pick?_ne_none (tie : Tie) (hn : n = c.below exponent ∨ n = c.below exponent + 1)
    (h : c.Holds exponent n) : c.pick? tie exponent ≠ none := by
  intro hnone
  rw [pick?] at hnone
  simp only at hnone
  split at hnone
  · split_ifs at hnone
  · cases hnone
  · cases hnone
  · rename_i hbelow habove
    rcases hn with rfl | rfl
    · exact Bool.false_ne_true (hbelow.symm.trans h)
    · exact Bool.false_ne_true (habove.symm.trans h)

/-- A cell that is wide enough for its grid has a hit. -/
theorem pick?_ne_none_of_wide (tie : Tie) {half : Nat}
    (hlow : c.low * finer exponent + half ≤ c.value * finer exponent)
    (hhigh : c.value * finer exponent + 2 * half ≤ c.high * finer exponent)
    (hpos : 0 < c.unit exponent) (hunit : c.unit exponent < 3 * half) :
    c.pick? tie exponent ≠ none := by
  have hrest : c.below exponent * c.unit exponent +
      c.value * finer exponent % c.unit exponent = c.value * finer exponent := by
    rw [below, Nat.mul_comm, Nat.div_add_mod]
  have hless := Nat.mod_lt (c.value * finer exponent) hpos
  -- the number is at most `half` above one point of the grid, or less than twice that below another
  rcases Nat.lt_or_ge (c.value * finer exponent % c.unit exponent) half with h | h
  · exact pick?_ne_none tie (.inl rfl) (holds_of_lt (by omega) (by omega))
  · refine pick?_ne_none tie (.inr rfl) (holds_of_lt ?_ ?_) <;> rw [Nat.succ_mul] <;> omega

variable {finest : Int}

/-- A search stops at a hit, or else on the finest grid. -/
theorem search_cases (c : Cell) (tie : Tie) (finest : Int) (steps : Nat) :
    (∃ n exponent, c.search tie finest steps = ⟨n, exponent⟩ ∧ c.pick? tie exponent = some n) ∨
      c.search tie finest steps = ⟨c.below finest, finest⟩ := by
  induction steps with
  | zero => exact .inr rfl
  | succ steps ih =>
    rw [search]
    split
    · rename_i n hn
      exact .inl ⟨n, _, rfl, hn⟩
    · exact ih

/-- A search does not go below its finest grid. -/
theorem finest_le_exponent_search (c : Cell) (tie : Tie) (finest : Int) (steps : Nat) :
    finest ≤ (c.search tie finest steps).exponent := by
  induction steps with
  | zero => exact le_rfl
  | succ steps ih =>
    rw [search]
    split
    · simp only
      omega
    · exact ih

/-- A search does not go beyond a grid with a hit. -/
theorem le_exponent_search {steps k : Nat} (hk : k ≤ steps)
    (h : c.pick? tie (finest + k) ≠ none) : finest + k ≤ (c.search tie finest steps).exponent := by
  induction steps with
  | zero =>
    obtain rfl := Nat.le_zero.1 hk
    exact (Int.add_zero finest).le
  | succ steps ih =>
    rw [search]
    split
    · simp only
      omega
    · rename_i hnone
      refine ih (Nat.le_of_lt_succ (hk.lt_of_ne ?_))
      rintro rfl
      exact h hnone

theorem low_ofBinary_pos {mantissa : Nat} (h : 0 < mantissa) (exponent : Int) :
    0 < (ofBinary mantissa exponent).low := by
  rw [ofBinary]
  refine Nat.mul_pos ?_ (by rw [Nat.one_shiftLeft]; exact Nat.two_pow_pos _)
  split <;> omega

theorem high_ofBinary (mantissa : Nat) (exponent : Int) :
    (ofBinary mantissa exponent).high = (4 * mantissa + 2) * 2 ^ (exponent - 2).toNat := by
  rw [ofBinary, Nat.one_shiftLeft]

theorem denominator_ofBinary (mantissa : Nat) (exponent : Int) :
    (ofBinary mantissa exponent).denominator = 2 ^ (2 - exponent).toNat :=
  Nat.one_shiftLeft _

theorem value_ofBinary (mantissa : Nat) (exponent : Int) :
    (ofBinary mantissa exponent).value = 4 * mantissa * 2 ^ (exponent - 2).toNat := by
  rw [ofBinary, Nat.one_shiftLeft]

theorem low_add_le {mantissa : Nat} (h : 0 < mantissa) (exponent : Int) :
    (ofBinary mantissa exponent).low + 2 ^ (exponent - 2).toNat ≤
      (ofBinary mantissa exponent).value := by
  rw [value_ofBinary, ofBinary, Nat.one_shiftLeft, ← Nat.succ_mul]
  refine Nat.mul_le_mul_right _ ?_
  split <;> omega

theorem high_ofBinary_eq (mantissa : Nat) (exponent : Int) :
    (ofBinary mantissa exponent).high =
      (ofBinary mantissa exponent).value + 2 * 2 ^ (exponent - 2).toNat := by
  rw [value_ofBinary, high_ofBinary, Nat.add_mul]

theorem value_le_high (mantissa : Nat) (exponent : Int) :
    (ofBinary mantissa exponent).value ≤ (ofBinary mantissa exponent).high := by
  rw [high_ofBinary_eq]
  exact Nat.le_add_right _ _

/-- The finest grid of a search, in the parts that a cell counts in. -/
theorem unit_finest (mantissa : Nat) (exponent : Int) :
    (ofBinary mantissa exponent).unit (min exponent 0) = 2 ^ (2 - exponent).toNat := by
  have hzero : (min exponent 0).toNat = 0 := by omega
  rw [unit, denominator_ofBinary, hzero]
  exact Nat.mul_one _

/-- The finest grid of a search has a point that is not zero below the number. -/
theorem below_finest_pos {mantissa : Nat} (h : 0 < mantissa) (exponent : Int) :
    0 < (ofBinary mantissa exponent).below (min exponent 0) := by
  rw [below, unit_finest, value_ofBinary, finer, tenTo_eq]
  refine Nat.div_pos ?_ (Nat.two_pow_pos _)
  have hten : 2 ^ (-min exponent 0).toNat ≤ 10 ^ (-min exponent 0).toNat :=
    Nat.pow_le_pow_left (by norm_num) _
  calc 2 ^ (2 - exponent).toNat ≤ 2 ^ (2 + (exponent - 2).toNat + (-min exponent 0).toNat) :=
        Nat.pow_le_pow_right (by norm_num) (by omega)
    _ = 4 * 2 ^ (exponent - 2).toNat * 2 ^ (-min exponent 0).toNat := by
      rw [Nat.pow_add, Nat.pow_add]
    _ ≤ 4 * mantissa * 2 ^ (exponent - 2).toNat * 10 ^ (-min exponent 0).toNat := by
      gcongr
      omega

end Cell

namespace Decimal

open Cell

variable (tie : Tie) {mantissa : Nat} (exponent : Int)

/-- A shortest decimal is not zero. -/
theorem significand_shortest_pos (h : 0 < mantissa) :
    0 < (shortest tie mantissa exponent).significand := by
  rw [shortest]
  rcases search_cases (ofBinary mantissa exponent) tie (min exponent 0) _ with
    ⟨n, e, hsearch, hpick⟩ | hsearch <;> rw [hsearch]
  · refine Nat.pos_of_ne_zero ?_
    rintro rfl
    have hlow := (holds_of_pick? hpick).1.bounds.1
    have hpos : 0 < (ofBinary mantissa exponent).low * finer e :=
      Nat.mul_pos (low_ofBinary_pos h exponent) (by rw [finer, tenTo_eq]; positivity)
    omega
  · exact below_finest_pos h exponent

/-- A shortest decimal does not pass the upper end of the cell. -/
theorem shortest_le_high (mantissa : Nat) :
    (shortest tie mantissa exponent).significand *
        (ofBinary mantissa exponent).unit (shortest tie mantissa exponent).exponent ≤
      (ofBinary mantissa exponent).high * finer (shortest tie mantissa exponent).exponent := by
  rw [shortest]
  rcases search_cases (ofBinary mantissa exponent) tie (min exponent 0)
    (exponentAbove (mantissa.log2 + 2 + exponent) - min exponent 0).toNat with
    ⟨n, e, hsearch, hpick⟩ | hsearch <;> rw [hsearch]
  · exact (holds_of_pick? hpick).1.bounds.2
  · exact (Nat.div_mul_le_self _ _).trans (Nat.mul_le_mul_right _ (value_le_high _ _))

/-- What a search starts with is too coarse. -/
theorem two_zpow_le_exponentAbove (t : Int) : (2 : ℚ) ^ t ≤ 10 ^ exponentAbove t := by
  rw [exponentAbove]
  split
  · calc (2 : ℚ) ^ t ≤ 2 ^ (3 * (t / 3 + 1)) := zpow_le_zpow_right₀ (by norm_num) (by omega)
      _ = 8 ^ (t / 3 + 1) := by rw [zpow_mul]; norm_num
      _ ≤ 10 ^ (t / 3 + 1) := zpow_le_zpow_left₀ (by omega) (by norm_num) (by norm_num)
  · have hpow : (10 : ℚ) ^ (-t / 4) ≤ 2 ^ (-t) := by
      calc (10 : ℚ) ^ (-t / 4) ≤ 16 ^ (-t / 4) :=
            zpow_le_zpow_left₀ (by omega) (by norm_num) (by norm_num)
        _ = 2 ^ (4 * (-t / 4)) := by rw [zpow_mul]; norm_num
        _ ≤ 2 ^ (-t) := zpow_le_zpow_right₀ (by norm_num) (by omega)
    rw [zpow_neg, ← neg_neg t, zpow_neg]
    exact inv_anti₀ (by positivity) (by rwa [neg_neg])

/-- A grid that is fine enough has a point in each cell of an exponent, and then the shortest
decimals there need no finer one. -/
theorem le_exponent_shortest_of_lt (hm : 0 < mantissa) {g : Int}
    (hg : (10 : ℚ) ^ g < 3 * 2 ^ (exponent - 2)) :
    g ≤ (shortest tie mantissa exponent).exponent := by
  rw [shortest]
  rcases le_or_gt g (min exponent 0) with hfinest | hfinest
  · exact hfinest.trans (finest_le_exponent_search _ _ _ _)
  · have hcoarse : g ≤ exponentAbove (mantissa.log2 + 2 + exponent) := by
      have hpow : (10 : ℚ) ^ g < 10 ^ exponentAbove (mantissa.log2 + 2 + exponent) := by
        calc (10 : ℚ) ^ g < 3 * 2 ^ (exponent - 2) := hg
          _ ≤ 2 ^ (2 : ℤ) * 2 ^ (exponent - 2) := by gcongr; norm_num
          _ = 2 ^ exponent := by rw [← zpow_add₀ two_ne_zero]; congr 1; omega
          _ ≤ 2 ^ (mantissa.log2 + 2 + exponent) := zpow_le_zpow_right₀ (by norm_num) (by omega)
          _ ≤ _ := two_zpow_le_exponentAbove _
      exact ((zpow_lt_zpow_iff_right₀ (by norm_num : (1 : ℚ) < 10)).1 hpow).le
    obtain ⟨k, rfl⟩ : ∃ k : Nat, g = min exponent 0 + k := ⟨(g - min exponent 0).toNat, by omega⟩
    refine le_exponent_search (by omega) (@pick?_ne_none_of_wide _ (min exponent 0 + k) tie
      (2 ^ (exponent - 2).toNat * finer (min exponent 0 + k)) ?_ ?_ ?_ ?_)
    · rw [← Nat.add_mul]
      exact Nat.mul_le_mul_right _ (low_add_le hm exponent)
    · rw [high_ofBinary_eq, Nat.add_mul, Nat.mul_assoc]
    · rw [unit, denominator_ofBinary, tenTo_eq]
      positivity
    · rw [unit, denominator_ofBinary, finer, tenTo_eq, tenTo_eq]
      have hten := zpow_mul_toNat (by norm_num : (10 : ℚ) ≠ 0) (min exponent 0 + k)
      have htwo := zpow_mul_toNat (two_ne_zero : (2 : ℚ) ≠ 0) (exponent - 2)
      rw [neg_sub] at htwo
      have hfiner : (0 : ℚ) < 10 ^ (-(min exponent 0 + k)).toNat := by positivity
      have hdenominator : (0 : ℚ) < 2 ^ (2 - exponent).toNat := by positivity
      have hscaled := mul_lt_mul_of_pos_right hg (mul_pos hfiner hdenominator)
      have hcast : ((2 ^ (2 - exponent).toNat * 10 ^ (min exponent 0 + k).toNat : Nat) : ℚ) <
          (3 * (2 ^ (exponent - 2).toNat * 10 ^ (-(min exponent 0 + k)).toNat) : Nat) := by
        push_cast
        rw [← hten, ← htwo]
        linarith
      exact_mod_cast hcast
theorem le_exponent_shortest_of_pow_lt (hm : 0 < mantissa) {g k : Nat} (h : 10 ^ g < 3 * 2 ^ k) :
    g ≤ (shortest tie mantissa (k + 2)).exponent := by
  refine le_exponent_shortest_of_lt tie _ hm ?_
  rw [add_sub_cancel_right, zpow_natCast, zpow_natCast]
  exact_mod_cast h

/-- The numbers of the largest exponent stand so far apart that a decimal with the exponent 292 is
in each of their cells. -/
theorem le_exponent_shortest (hm : 0 < mantissa) : 292 ≤ (shortest tie mantissa 971).exponent :=
  le_exponent_shortest_of_pow_lt tie hm (g := 292) (k := 969) (by decide +kernel)

end Decimal

end Scriptlet
