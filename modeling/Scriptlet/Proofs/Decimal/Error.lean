import Mathlib
import Scriptlet.Proofs.Decimal.Nearest

/-!
# Errors of arithmetic of 64 bits

A number that is not very small is rounded to one that differs from it by a small part of itself.
Such errors add up: after a few multiplications and divisions the result is as near to the exact one
as a number that was rounded so many times. Very small numbers are rounded to multiples of the least
one, and that only makes their last rounding worse.

## Main definitions

* `Binary.Near` — two fractions differ by no more than some roundings make
* `Binary.FloatNear` — a number of 64 bits is near to a fraction

## Main results

* `Binary.Near.trans`, `Binary.Near.mul`, `Binary.Near.div` — roundings add up
* `Binary.Nearest.near` — numbers that are not small are rounded once
* `Binary.Nearest.error_le` — a few roundings of a decimal of a number stay next to that number
-/

namespace Scriptlet

namespace Binary

open Float.Model Float.Model.UnpackedFloat

/-- Half of the distance from one to the next number. -/
def roundoff : ℚ := 1 / 2 ^ 53

/-- Two numbers are as near to each other as one that was rounded `k` times is to the exact one. -/
def Near (k : Nat) (p q : ℚ) : Prop := (1 - roundoff) ^ k * p ≤ q ∧ (1 - roundoff) ^ k * q ≤ p

section

variable {k l : Nat} {p p' q q' r : ℚ}

theorem one_sub_roundoff_pos : 0 < 1 - roundoff := by norm_num [roundoff]

theorem one_sub_roundoff_le_one : 1 - roundoff ≤ 1 := by norm_num [roundoff]

theorem Near.trans (h : Near k p q) (h' : Near l q r) : Near (k + l) p r := by
  have hk : 0 ≤ (1 - roundoff) ^ k := pow_nonneg one_sub_roundoff_pos.le k
  have hl : 0 ≤ (1 - roundoff) ^ l := pow_nonneg one_sub_roundoff_pos.le l
  constructor
  · calc (1 - roundoff) ^ (k + l) * p = (1 - roundoff) ^ l * ((1 - roundoff) ^ k * p) := by ring
      _ ≤ (1 - roundoff) ^ l * q := mul_le_mul_of_nonneg_left h.1 hl
      _ ≤ r := h'.1
  · calc (1 - roundoff) ^ (k + l) * r = (1 - roundoff) ^ k * ((1 - roundoff) ^ l * r) := by ring
      _ ≤ (1 - roundoff) ^ k * q := mul_le_mul_of_nonneg_left h'.2 hk
      _ ≤ p := h.2

theorem Near.mul (h : Near k p q) (h' : Near l p' q') (hp : 0 ≤ p) (hp' : 0 ≤ p') (hq : 0 ≤ q)
    (hq' : 0 ≤ q') : Near (k + l) (p * p') (q * q') := by
  have hk : 0 ≤ (1 - roundoff) ^ k := pow_nonneg one_sub_roundoff_pos.le k
  have hl : 0 ≤ (1 - roundoff) ^ l := pow_nonneg one_sub_roundoff_pos.le l
  constructor
  · calc (1 - roundoff) ^ (k + l) * (p * p')
        = (1 - roundoff) ^ k * p * ((1 - roundoff) ^ l * p') := by ring
      _ ≤ q * q' := mul_le_mul h.1 h'.1 (mul_nonneg hl hp') hq
  · calc (1 - roundoff) ^ (k + l) * (q * q')
        = (1 - roundoff) ^ k * q * ((1 - roundoff) ^ l * q') := by ring
      _ ≤ p * p' := mul_le_mul h.2 h'.2 (mul_nonneg hl hq') hp

theorem Near.inv (h : Near k p q) (hp : 0 < p) (hq : 0 < q) : Near k p⁻¹ q⁻¹ := by
  constructor
  · rw [← div_eq_mul_inv, div_le_iff₀ hp, ← div_eq_inv_mul, le_div_iff₀ hq]
    exact h.2
  · rw [← div_eq_mul_inv, div_le_iff₀ hq, ← div_eq_inv_mul, le_div_iff₀ hp]
    exact h.1

theorem Near.div (h : Near k p q) (h' : Near l p' q') (hp : 0 ≤ p) (hp' : 0 < p') (hq : 0 ≤ q)
    (hq' : 0 < q') : Near (k + l) (p / p') (q / q') := by
  rw [div_eq_mul_inv, div_eq_mul_inv]
  exact h.mul (h'.inv hp' hq') hp (inv_nonneg.2 hp'.le) hq (inv_nonneg.2 hq'.le)

theorem Near.mono (h : Near k p q) (hkl : k ≤ l) (hp : 0 ≤ p) (hq : 0 ≤ q) : Near l p q := by
  have hpow : (1 - roundoff) ^ l ≤ (1 - roundoff) ^ k :=
    pow_le_pow_of_le_one one_sub_roundoff_pos.le one_sub_roundoff_le_one hkl
  exact ⟨(mul_le_mul_of_nonneg_right hpow hp).trans h.1,
    (mul_le_mul_of_nonneg_right hpow hq).trans h.2⟩

/-- A few roundings make a difference of a few roundoffs. -/
theorem Near.error_le (h : Near k p q) (hp : 0 ≤ p) (hq : 0 ≤ q) (hk : k ≤ 7) :
    |q - p| ≤ (k + 1 / 4) * roundoff * p := by
  have hbernoulli : 1 - k * roundoff ≤ (1 - roundoff) ^ k := by
    have := one_add_mul_le_pow (by norm_num [roundoff] : (-2 : ℚ) ≤ -roundoff) k
    rw [← sub_eq_add_neg] at this
    linarith
  have hlow := (mul_le_mul_of_nonneg_right hbernoulli hp).trans h.1
  have hhigh := (mul_le_mul_of_nonneg_right hbernoulli hq).trans h.2
  have hu : 0 < roundoff := by norm_num [roundoff]
  have hk7 : (k : ℚ) ≤ 7 := by exact_mod_cast hk
  have hsecond : k * roundoff ≤ (k + 1 / 4) * roundoff * (1 - k * roundoff) := by
    have hless : (k + 1 / 4) * (k * roundoff) ≤ 1 / 4 := by
      calc (k + 1 / 4) * (k * roundoff) ≤ (7 + 1 / 4) * (7 * roundoff) := by gcongr
        _ ≤ 1 / 4 := by norm_num [roundoff]
    nlinarith
  have hfactor : 0 ≤ (k + 1 / 4) * roundoff := by positivity
  rw [abs_sub_le_iff]
  constructor
  · calc q - p ≤ k * roundoff * q := by linarith
      _ ≤ (k + 1 / 4) * roundoff * (1 - k * roundoff) * q := mul_le_mul_of_nonneg_right hsecond hq
      _ = (k + 1 / 4) * roundoff * ((1 - k * roundoff) * q) := by ring
      _ ≤ (k + 1 / 4) * roundoff * p := mul_le_mul_of_nonneg_left hhigh hfactor
  · calc p - q ≤ k * roundoff * p := by linarith
      _ ≤ (k + 1 / 4) * roundoff * p := by gcongr; linarith

/-! ### Roundings -/


open Cell in
/-- The nearest number is half of a unit away at most. -/
theorem error_le_of_contains {m : Nat} {e : Int} (hm : 0 < m)
    (h : (Cell.ofBinary m e).Contains q) : |m * 2 ^ e - q| ≤ 2 ^ e / 2 := by
  obtain ⟨hlow, hhigh, -⟩ := h.bounds hm
  have hunit : (0 : ℚ) < 2 ^ e := by positivity
  have hmargin : (margin m e : ℚ) * 2 ^ e ≤ 2 * 2 ^ e := by
    have : (margin m e : ℚ) ≤ 2 := by exact_mod_cast margin_le m e
    gcongr
  rw [abs_sub_le_iff]
  constructor <;> linarith

/-- Numbers that are not small are rounded to numbers with all their bits. -/
theorem Nearest.near {u : UnpackedFloat} (h : Nearest q u) (hq : 2 ^ (-1022 : ℤ) ≤ q) :
    Near 1 q (absValue u) := by
  have hleast : (2 : ℚ) ^ (-1022 : ℤ) = 2 ^ 52 * 2 ^ (-1074 : ℤ) := by
    rw [← zpow_natCast, ← zpow_add₀ two_ne_zero]
    rfl
  have hpos : (0 : ℚ) < 2 ^ (-1074 : ℤ) := by positivity
  rw [hleast] at hq
  obtain rfl | ⟨m, e, hm, rfl, hcanonical⟩ := h.nonnegative.cases
  · have := h.2
    linarith
  · have hhalf := abs_sub_le_iff.1 (error_le_of_contains hm h.2)
    have hunit : (0 : ℚ) < 2 ^ e := by positivity
    have hfull : (2 ^ 52 : ℚ) ≤ m := by
      rcases hcanonical.full with hfull | rfl
      · exact_mod_cast hfull
      · have hless : (2 ^ 52 : ℚ) * 2 ^ (-1074 : ℤ) < (m + 1) * 2 ^ (-1074 : ℤ) := by linarith
        have : (2 ^ 52 : ℚ) < m + 1 := lt_of_mul_lt_mul_right hless hpos.le
        exact_mod_cast Nat.le_of_lt_succ (by exact_mod_cast this)
    have hrelative : 2 ^ e / 2 ≤ roundoff * (m * 2 ^ e) := by
      have := mul_le_mul_of_nonneg_right hfull hunit.le
      rw [roundoff]
      linarith
    rw [absValue_finite, Near, pow_one]
    have hu : 0 < roundoff := by norm_num [roundoff]
    constructor
    · have : (1 - roundoff) * q ≤ (1 - roundoff) * ((1 + roundoff) * (m * 2 ^ e)) :=
        mul_le_mul_of_nonneg_left (by linarith) one_sub_roundoff_pos.le
      have : 0 ≤ roundoff * roundoff * (m * 2 ^ e) := by positivity
      linarith
    · linarith

/-- Small numbers are rounded to multiples of the least number. -/
theorem Nearest.error_le_of_small {u : UnpackedFloat} (h : Nearest q u) (hq : q < 2 ^ (-1022 : ℤ)) :
    |absValue u - q| ≤ 2 ^ (-1074 : ℤ) / 2 := by
  obtain rfl | ⟨m, e, hm, rfl, hcanonical⟩ := h.nonnegative.cases
  · obtain ⟨hnonneg, hhalf⟩ := h
    rw [absValue_zero, zero_sub, abs_neg, abs_of_nonneg hnonneg]
    linarith
  · obtain rfl : e = -1074 := by
      by_contra hne
      have hstart := Cell.start_le hcanonical hne
      have hlow := (h.2.bounds hm).1
      have hunit : (2 : ℚ) ^ (-1073 : ℤ) ≤ 2 ^ e :=
        zpow_le_zpow_right₀ (by norm_num) (by have := hcanonical.exponent; omega)
      have hleast : (2 : ℚ) ^ (-1022 : ℤ) = 2 ^ 51 * 2 ^ (-1073 : ℤ) := by
        rw [← zpow_natCast, ← zpow_add₀ two_ne_zero]
        rfl
      have hpos : (0 : ℚ) < 2 ^ (-1073 : ℤ) := by positivity
      have := mul_le_mul hstart hunit hpos.le (by linarith)
      linarith
    exact error_le_of_contains hm h.2
/-- Somewhat smaller numbers are not rounded much worse. -/
theorem Nearest.near_of_le {u : UnpackedFloat} (h : Nearest q u)
    (hq : 2 ^ (-1022 : ℤ) ≤ 5 / 2 * q) : Near 3 q (absValue u) := by
  have hu : 0 ≤ absValue u := h.nonnegative.absValue_nonneg
  have hq0 : 0 ≤ q := by
    have : (0 : ℚ) < 2 ^ (-1022 : ℤ) := by positivity
    linarith
  rcases le_or_gt (2 ^ (-1022 : ℤ)) q with hfull | hless
  · exact (h.near hfull).mono (by norm_num) hq0 hu
  · have hleast : (2 : ℚ) ^ (-1074 : ℤ) / 2 = roundoff * 2 ^ (-1022 : ℤ) := by
      have : (2 : ℚ) ^ (-1022 : ℤ) = 2 ^ 52 * 2 ^ (-1074 : ℤ) := by
        rw [← zpow_natCast, ← zpow_add₀ two_ne_zero]
        rfl
      rw [this, roundoff]
      ring
    have herror := h.error_le_of_small hless
    have hrelative : roundoff * 2 ^ (-1022 : ℤ) ≤ roundoff * (5 / 2 * q) :=
      mul_le_mul_of_nonneg_left hq (by norm_num [roundoff])
    rw [hleast, abs_sub_le_iff] at herror
    have hlow : (1 - roundoff) ^ 3 ≤ 1 - 5 / 2 * roundoff := by norm_num [roundoff]
    have hhigh : (1 - roundoff) ^ 3 * (1 + 5 / 2 * roundoff) ≤ 1 := by norm_num [roundoff]
    constructor
    · calc (1 - roundoff) ^ 3 * q ≤ (1 - 5 / 2 * roundoff) * q :=
            mul_le_mul_of_nonneg_right hlow hq0
        _ ≤ absValue u := by linarith
    · calc (1 - roundoff) ^ 3 * absValue u
          ≤ (1 - roundoff) ^ 3 * ((1 + 5 / 2 * roundoff) * q) :=
            mul_le_mul_of_nonneg_left (by linarith) (pow_nonneg one_sub_roundoff_pos.le 3)
        _ = (1 - roundoff) ^ 3 * (1 + 5 / 2 * roundoff) * q := by ring
        _ ≤ q := mul_le_of_le_one_left hq0 hhigh

/-- A number that is computed in a few steps from a decimal of another one, and rounded after each
of them, is not far from that. -/
theorem Nearest.error_le {m : Nat} {e : Int} {u : UnpackedFloat} (hm : 0 < m)
    (hcanonical : Canonical m e) (hcell : (Cell.ofBinary m e).Contains p) (hnear : Near 6 p q)
    (hq : 0 ≤ q) (h : Nearest q u) : |absValue u - m * 2 ^ e| ≤ 8 * 2 ^ e := by
  have hunit : (0 : ℚ) < 2 ^ e := by positivity
  have hleast : (2 : ℚ) ^ (-1074 : ℤ) ≤ 2 ^ e :=
    zpow_le_zpow_right₀ (by norm_num) hcanonical.exponent
  have hhalf := error_le_of_contains hm hcell
  have hends := abs_sub_le_iff.1 hhalf
  have hm1 : (1 : ℚ) ≤ m := by exact_mod_cast hm
  have hm53 : (m : ℚ) + 1 ≤ 2 ^ 53 := by exact_mod_cast hcanonical.mantissa
  have hp : 0 ≤ p := by nlinarith
  have hp53 : p ≤ 2 ^ 53 * 2 ^ e := by nlinarith
  have hulp : roundoff * p ≤ 2 ^ e := by
    rw [roundoff]
    linarith
  have htotal : |absValue u - p| ≤ (7 + 1 / 4) * 2 ^ e := by
    rcases le_or_gt (2 ^ (-1022 : ℤ)) q with hfull | hless
    · have := (hnear.trans (h.near hfull)).error_le hp h.nonnegative.absValue_nonneg le_rfl
      push_cast at this
      linarith
    · have hlast := h.error_le_of_small hless
      have hbefore := hnear.error_le hp hq (by norm_num)
      have := abs_sub_le (absValue u) q p
      push_cast at hbefore
      linarith
  have := abs_sub_le (absValue u) p (m * 2 ^ e)
  rw [abs_sub_comm] at hhalf
  linarith

/-! ### Arithmetic of 64 bits -/

/-- A finite number that is not negative and near to a fraction. -/
structure FloatNear (k : Nat) (q : ℚ) (x : Float) : Prop where
  nonnegative : Nonnegative x.toModel.unpack
  near : Near k q (absFloat x)

theorem Near.pos (h : Near k p q) (hp : 0 < p) : 0 < q :=
  (mul_pos (pow_pos one_sub_roundoff_pos k) hp).trans_le h.1

theorem Near.le_two_mul (h : Near k p q) (hk : k ≤ 7) (hp : 0 ≤ p) (hq : 0 ≤ q) : q ≤ 2 * p := by
  have herror := (abs_sub_le_iff.1 (h.error_le hp hq hk)).1
  have hsmall : (k + 1 / 4) * roundoff ≤ 1 := by
    have : (k : ℚ) ≤ 7 := by exact_mod_cast hk
    rw [roundoff]
    linarith
  have := mul_le_mul_of_nonneg_right hsmall hp
  linarith

variable {x y : Float}

theorem FloatNearest.near (h : FloatNearest q x) (hq : 2 ^ (-1022 : ℤ) ≤ q) : FloatNear 1 q x :=
  ⟨h.nonnegative, Nearest.near h hq⟩

theorem FloatNear.beq_zero (h : FloatNear k q x) (hq : 0 < q) : (x == 0) = false := by
  have hpos : 0 < absFloat x := h.near.pos hq
  show UnpackedFloat.beq x.toModel.unpack (0 : Float).toModel.unpack = false
  have hzero : (0 : Float).toModel.unpack = .zero .positive := rfl
  rw [absFloat] at hpos
  obtain hu | ⟨m, e, hm, hu, -⟩ := h.nonnegative.cases
  · rw [hu] at hpos
    exact (lt_irrefl _ hpos).elim
  · rw [hu, hzero]
    rfl

theorem FloatNear.mul (hx : FloatNear k p x) (hy : FloatNear l q y) (hp : 0 ≤ p) (hq : 0 ≤ q)
    (hfinite : (x * y).isInf = false) :
    ∃ r, Near (k + l) (p * q) r ∧ 0 ≤ r ∧ FloatNearest r (x * y) := by
  have hx0 : 0 ≤ absFloat x := hx.nonnegative.absValue_nonneg
  have hy0 : 0 ≤ absFloat y := hy.nonnegative.absValue_nonneg
  exact ⟨_, hx.near.mul hy.near hp hq hx0 hy0, mul_nonneg hx0 hy0,
    floatNearest_mul hx.nonnegative hy.nonnegative hfinite⟩

theorem FloatNear.div (hx : FloatNear k p x) (hy : FloatNear l q y) (hkl : k + l ≤ 7) (hp : 0 ≤ p)
    (hq : 0 < q) (hle : p / q ≤ 2 ^ 100) :
    ∃ r, Near (k + l) (p / q) r ∧ 0 ≤ r ∧ FloatNearest r (x / y) := by
  have hx0 : 0 ≤ absFloat x := hx.nonnegative.absValue_nonneg
  have hy0 : 0 < absFloat y := hy.near.pos hq
  have hquotient := hx.near.div hy.near hp hq hx0 hy0
  have hr0 : 0 ≤ absFloat x / absFloat y := div_nonneg hx0 hy0.le
  refine ⟨_, hquotient, hr0, floatNearest_div hx.nonnegative hy.nonnegative hy0 ?_⟩
  have hgreatest : ((2 ^ 101 : Nat) : ℚ) ≤ greatest :=
    Nat.cast_le.2 (two_pow_le_greatest (by norm_num))
  have := hquotient.le_two_mul hkl (div_nonneg hp hq.le) hr0
  refine le_trans ?_ hgreatest
  push_cast
  linarith

end

end Binary

end Scriptlet
