import Mathlib
import Scriptlet.Proofs.Decimal.Cell

/-!
# Arithmetic of 64 bits gives the nearest number

What is rounded is cut off after some bits first. The bit behind the cut and whether there is any
other bit say on which side of the middle between two mantissas the number stands, or whether it is
the middle, and that is kept by each further shift. So the mantissa that comes out is the nearest
one, and the number that it makes up is the one in whose cell the exact result is.

Cells do not overlap. So an exact result in the cell of a number is rounded to that number, and one
that is a number itself is not changed.

## Main definitions

* `Binary.Cut` — where a number stands that was cut off
* `Binary.Nearest` — a number is the nearest one to a fraction
* `Binary.FloatNearest` — the same, for numbers of 64 bits

## Main results

* `Binary.nearest_roundWithAccuracy` — rounding gives the nearest number
* `Binary.FloatNearest.mul`, `Binary.FloatNearest.div`, `Binary.floatNearest_ofScientific` — so do
  products, quotients and whole decimals
* `Binary.FloatNearest.eq_of_contains` — what is in the cell of a number is rounded to it
-/

namespace Scriptlet

namespace Binary

open Float.Model Float.Model.UnpackedFloat

/-! ### Cutting off bits -/

/-- Where a number stands that was cut off after the bits of a mantissa: at that mantissa, or before
the middle to the next one, in the middle or behind it. -/
def Cut : ExtendedMantissa → ℚ → Prop
  | ⟨m, false, false⟩, x => x = m
  | ⟨m, false, true⟩, x => m < x ∧ x < m + 1 / 2
  | ⟨m, true, false⟩, x => x = m + 1 / 2
  | ⟨m, true, true⟩, x => m + 1 / 2 < x ∧ x < m + 1

variable {em : ExtendedMantissa} {x : ℚ}

theorem Cut.shiftRightOne (h : Cut em x) : Cut em.shiftRightOne (x / 2) := by
  obtain ⟨m, round, sticky⟩ := em
  have hm : (m : ℚ) = 2 * (m / 2 : Nat) + (m % 2 : Nat) := by
    exact_mod_cast (Nat.div_add_mod m 2).symm
  have hone : ((1 : Nat) != 0) = true := rfl
  rcases Nat.mod_two_eq_zero_or_one m with hbit | hbit <;> rw [hbit] at hm <;> push_cast at hm <;>
    cases round <;> cases sticky <;> simp only [Cut] at h <;>
    simp only [ExtendedMantissa.shiftRightOne, hbit, Cut, Bool.or_false, Bool.or_true,
      bne_self_eq_false, hone] <;>
    first | linarith | constructor <;> linarith

theorem Cut.bounds (h : Cut em x) : (em.mantissa : ℚ) ≤ x ∧ x < em.mantissa + 1 := by
  obtain ⟨m, round, sticky⟩ := em
  cases round <;> cases sticky <;> simp only [Cut] at h ⊢ <;> constructor <;> linarith

theorem cut_exact (m : Nat) : Cut (.ofMantissaAndAccuracy m .exact) m := rfl

/-- A quotient is cut off with the remainder telling where it stands. -/
theorem cut_div (n : Nat) {d : Nat} (hd : 0 < d) :
    Cut (.ofMantissaAndAccuracy (n / d) (accuracyOfFraction (n % d) d)) (n / d) := by
  have hpos : (0 : ℚ) < d := by exact_mod_cast hd
  have hless : ((n % d : Nat) : ℚ) < d := by exact_mod_cast Nat.mod_lt n hd
  have hquotient : (n : ℚ) / d = (n / d : Nat) + (n % d : Nat) / d := by
    have hn : (d : ℚ) * (n / d : Nat) + (n % d : Nat) = n := by
      exact_mod_cast Nat.div_add_mod n d
    rw [← hn, add_div, mul_div_cancel_left₀ _ hpos.ne']
  rw [hquotient, accuracyOfFraction]
  split
  · rename_i hzero
    rw [hzero, Nat.cast_zero, zero_div, add_zero]
    exact cut_exact _
  · rename_i hne
    have hrest : (0 : ℚ) < (n % d : Nat) / d := by
      have : (0 : ℚ) < (n % d : Nat) := by exact_mod_cast Nat.pos_of_ne_zero hne
      positivity
    generalize n % d = r at *
    cases hc : compare (2 * r) d with
    | lt =>
      have hr : 2 * (r : ℚ) < d := by exact_mod_cast Nat.compare_eq_lt.1 hc
      have : (r : ℚ) / d < 1 / 2 := by rw [div_lt_div_iff₀ hpos two_pos]; linarith
      exact ⟨by linarith, by linarith⟩
    | eq =>
      have hr : 2 * (r : ℚ) = d := by exact_mod_cast Nat.compare_eq_eq.1 hc
      have hhalf : (r : ℚ) / d = 1 / 2 := by rw [div_eq_div_iff hpos.ne' two_ne_zero]; linarith
      rw [hhalf]
      rfl
    | gt =>
      have hr : (d : ℚ) < 2 * r := by exact_mod_cast Nat.compare_eq_gt.1 hc
      have : 1 / 2 < (r : ℚ) / d := by rw [div_lt_div_iff₀ two_pos hpos]; linarith
      have : (r : ℚ) / d < 1 := (div_lt_one hpos).2 hless
      exact ⟨by linarith, by linarith⟩

/-- A whole number is the nearest one, and it is even if there are two. -/
structure IsNearest (x : ℚ) (n : Nat) : Prop where
  low : 2 * (n : ℚ) - 1 ≤ 2 * x
  high : 2 * x ≤ 2 * n + 1
  of_odd : n % 2 = 1 → 2 * (n : ℚ) - 1 < 2 * x ∧ 2 * x < 2 * n + 1

theorem Cut.isNearest (h : Cut em x) : IsNearest x em.roundedMantissa := by
  obtain ⟨m, round, sticky⟩ := em
  cases round <;> cases sticky <;>
    simp only [Cut, ExtendedMantissa.roundedMantissa, ExtendedMantissa.accuracy,
      Accuracy.roundToNearestEven] at h ⊢
  · exact ⟨by linarith, by linarith, fun _ => ⟨by linarith, by linarith⟩⟩
  · exact ⟨by linarith, by linarith, fun _ => ⟨by linarith, by linarith⟩⟩
  · -- in the middle, where the mantissa goes up if it is odd
    rcases Nat.mod_two_eq_zero_or_one m with hbit | hbit <;> rw [hbit]
    · exact ⟨by push_cast; linarith, by push_cast; linarith, fun hodd => by omega⟩
    · exact ⟨by push_cast; linarith, by push_cast; linarith, fun hodd => by omega⟩
  · exact ⟨by push_cast; linarith, by push_cast; linarith,
      fun _ => ⟨by push_cast; linarith, by push_cast; linarith⟩⟩


theorem Cut.shiftRight (h : Cut em x) (k : Nat) : Cut (em >>> k) (x / 2 ^ k) := by
  induction k with
  | zero => rwa [pow_zero, div_one]
  | succ k ih =>
    have hstep : em >>> (k + 1) = (em >>> k).shiftRightOne := rfl
    rw [hstep, pow_succ, ← div_div]
    exact ih.shiftRightOne

def Nearest (q : ℚ) : UnpackedFloat → Prop
  | .zero .positive => 0 ≤ q ∧ 2 * q ≤ 2 ^ (-1074 : ℤ)
  | .finite .positive m e _ => Canonical m e ∧ (Cell.ofBinary m e).Contains q
  | _ => False

/-- A number is written down in one way only. -/
theorem Canonical.eq_of_value_eq {m m' : Nat} {e e' : Int} (h : Canonical m e)
    (h' : Canonical m' e') (hm : 0 < m) (heq : (m : ℚ) * 2 ^ e = m' * 2 ^ e') :
    m = m' ∧ e = e' := by
  have hm' : 0 < m' := by
    rw [Nat.pos_iff_ne_zero]
    rintro rfl
    rw [Nat.cast_zero, zero_mul] at heq
    have : (0 : ℚ) < m * 2 ^ e := by positivity
    exact this.ne' heq
  exact Cell.contains_ofBinary_unique hm hm' h h' (Cell.contains_self hm)
    (heq ▸ Cell.contains_self hm')

/-- The cell of the nearest mantissa. -/
theorem IsNearest.contains {x : ℚ} {m : Nat} {e : Int} (hx : IsNearest x m) (hm : 0 < m)
    (hfull : 2 ^ 52 ≤ x ∨ e = -1074) : (Cell.ofBinary m e).Contains (x * 2 ^ e) := by
  have hunit : (0 : ℚ) < 2 ^ e := by positivity
  have hscale {a b : ℚ} (h : a ≤ b) : a * 2 ^ e ≤ b * 2 ^ e := by gcongr
  have hmargin : (4 * m - Cell.margin m e : ℚ) ≤ 4 * x := by
    rw [Cell.margin]
    split
    · rename_i hnarrow
      have hleading : (m : ℚ) = 2 ^ 52 := by
        have : m = 2 ^ 52 := hnarrow.1
        rw [this]
        norm_num
      have := hfull.resolve_right hnarrow.2
      push_cast
      linarith
    · have := hx.low
      push_cast
      linarith
  rw [Cell.contains_ofBinary_iff hm]
  split
  · have hhigh : 4 * x ≤ 4 * m + 2 := by linarith [hx.high]
    exact ⟨by linarith [hscale hmargin], by linarith [hscale hhigh]⟩
  · rename_i hbit
    obtain ⟨hlow, hhigh⟩ := hx.of_odd (by omega)
    have hwide : (Cell.margin m e : ℚ) = 2 := by
      rw [Cell.margin, if_neg]
      · rfl
      · rintro ⟨rfl, -⟩
        exact hbit rfl
    rw [hwide]
    constructor <;> nlinarith

/-- A number whose mantissa is rounded up to a power of two is in the cell of that power. -/
theorem IsNearest.contains_carry {x : ℚ} {e : Int} (hx : IsNearest x (2 ^ 53)) (he : -1074 ≤ e) :
    (Cell.ofBinary (2 ^ 52) (e + 1)).Contains (x * 2 ^ e) := by
  have hunit : (0 : ℚ) < 2 ^ e := by positivity
  obtain ⟨hlow, hhigh, -⟩ := hx
  push_cast at hlow hhigh
  have hmargin : Cell.margin (2 ^ 52) (e + 1) = 1 := if_pos ⟨rfl, by omega⟩
  rw [Cell.contains_ofBinary_iff (by norm_num), if_pos (by norm_num), hmargin,
    zpow_add_one₀ two_ne_zero]
  push_cast
  constructor <;> nlinarith

theorem mantissa_ofMantissaAndAccuracy (m : Nat) (accuracy : Accuracy) :
    (ExtendedMantissa.ofMantissaAndAccuracy m accuracy).mantissa = m := by
  cases accuracy with
  | exact => rfl
  | inexact side => cases side <;> rfl

/-- **Rounding gives the nearest number.** -/
theorem nearest_roundWithAccuracy {m : Nat} {accuracy : Accuracy} {x : ℚ}
    (hx : Cut (.ofMantissaAndAccuracy m accuracy) x) {e : Int}
    (he : e ≤ max (m.log2 + e - 52) (-1074)) :
    Nearest (x * 2 ^ e) (roundWithAccuracy .binary64 .positive m e accuracy) := by
  obtain ⟨unit, hunit⟩ : ∃ unit, unit = max ((m.log2 : Int) + e - 52) (-1074) := ⟨_, rfl⟩
  obtain ⟨k, hk⟩ : ∃ k : Nat, unit = e + k := ⟨(unit - e).toNat, by omega⟩
  obtain ⟨r, hr⟩ :
      ∃ r, (ExtendedMantissa.ofMantissaAndAccuracy m accuracy >>> k).roundedMantissa = r :=
    ⟨_, rfl⟩
  have hnearest : IsNearest (x / 2 ^ k) r := hr ▸ (hx.shiftRight k).isNearest
  -- what is rounded has at most 53 bits before the point, and no fewer if its exponent is not least
  have hbounds := hx.bounds
  rw [mantissa_ofMantissaAndAccuracy] at hbounds
  have hlow (hm : m ≠ 0) : (2 : ℚ) ^ m.log2 ≤ x := by
    refine le_trans ?_ hbounds.1
    exact_mod_cast Nat.log2_self_le hm
  have hhigh : x < 2 ^ (m.log2 + 1) := by
    refine hbounds.2.trans_le ?_
    exact_mod_cast Nat.succ_le_of_lt Nat.lt_log2_self
  have hless : x / 2 ^ k < 2 ^ 53 := by
    rw [div_lt_iff₀ (by positivity), ← pow_add]
    exact hhigh.trans_le (pow_le_pow_right₀ (by norm_num) (by omega))
  have hfull : 2 ^ 52 ≤ x / 2 ^ k ∨ unit = -1074 := by
    refine or_iff_not_imp_right.2 fun hleast => ?_
    have hm : m ≠ 0 := by
      rintro rfl
      rw [Nat.log2_zero] at hunit
      omega
    rw [le_div_iff₀ (by positivity), ← pow_add]
    exact (pow_le_pow_right₀ (by norm_num) (by omega)).trans (hlow hm)
  have hr53 : r ≤ 2 ^ 53 := by
    have : (2 * r : ℚ) < 2 * 2 ^ 53 + 1 := by linarith [hnearest.low]
    have : 2 * r < 2 * 2 ^ 53 + 1 := by exact_mod_cast this
    omega
  have hr52 : 2 ^ 52 ≤ r ∨ unit = -1074 := hfull.imp_left fun hfull => by
    have : (2 * 2 ^ 52 : ℚ) ≤ 2 * r + 1 := by linarith [hnearest.high]
    have : 2 * 2 ^ 52 ≤ 2 * r + 1 := by exact_mod_cast this
    omega
  have hvalue : x * 2 ^ e = x / 2 ^ k * 2 ^ unit := by
    rw [hk, zpow_add₀ two_ne_zero, zpow_natCast]
    field_simp
  have hfirst : shiftToTargetExponent .binary64 m e accuracy =
      (ExtendedMantissa.ofMantissaAndAccuracy m accuracy >>> k, unit) := by
    rw [hk]
    exact shiftToTargetExponent_eq _ (hunit.symm.trans hk)
  obtain ⟨m', e', hsecond, hsame, hcanonical⟩ :=
    shiftToTargetExponent_carry hr53 (by omega : -1074 ≤ unit) hr52
  rw [roundWithAccuracy, hvalue]
  simp only [hfirst, hr, hsecond]
  split
  · rename_i hzero
    have hm' : m' = 0 := hzero
    have hr0 : r = 0 := by
      have : (r : ℚ) * 2 ^ unit = 0 := by rw [← hsame, hm', Nat.cast_zero, zero_mul]
      exact_mod_cast (mul_eq_zero.1 this).resolve_right (by positivity)
    have hleast : unit = -1074 := hr52.resolve_left (by omega)
    have hpos : (0 : ℚ) < 2 ^ (-1074 : ℤ) := by positivity
    have hx0 : 0 ≤ x / 2 ^ k := div_nonneg ((Nat.cast_nonneg m).trans hbounds.1) (by positivity)
    have hhalf : 2 * (x / 2 ^ k) ≤ 1 := by simpa [hr0] using hnearest.high
    rw [hleast]
    exact ⟨by positivity, by nlinarith⟩
  · rename_i hpos
    refine ⟨hcanonical, ?_⟩
    have hm' : 0 < m' := Nat.pos_of_ne_zero hpos
    show (Cell.ofBinary m' e').Contains _
    rcases hr53.eq_or_lt with rfl | hr53
    · have hcarry : Canonical (2 ^ 52) (unit + 1) := ⟨by norm_num, by omega, .inl le_rfl⟩
      have hpower : (m' : ℚ) * 2 ^ e' = (2 ^ 52 : Nat) * 2 ^ (unit + 1) := by
        rw [hsame, zpow_add_one₀ two_ne_zero]
        push_cast
        ring
      obtain ⟨rfl, rfl⟩ := hcanonical.eq_of_value_eq hcarry hm' hpower
      exact hnearest.contains_carry (by omega)
    · obtain ⟨rfl, rfl⟩ := hcanonical.eq_of_value_eq ⟨hr53, by omega, hr52⟩ hm' hsame
      exact hnearest.contains hm' hfull


/-! ### Finite numbers that are not negative -/

section

variable {p q : ℚ} {u v : UnpackedFloat}

/-- The size of a number that was taken apart. -/
def absValue : UnpackedFloat → ℚ
  | .finite _ m e _ => m * 2 ^ e
  | _ => 0

@[simp] theorem absValue_zero (sign : Sign) : absValue (.zero sign) = 0 := rfl

@[simp] theorem absValue_finite (sign : Sign) (m : Nat) (e : Int) (hm : 0 < m) :
    absValue (.finite sign m e hm) = m * 2 ^ e := rfl

/-- A finite number that is not negative. -/
def Nonnegative : UnpackedFloat → Prop
  | .zero .positive => True
  | .finite .positive m e _ => Canonical m e
  | _ => False

theorem Nonnegative.cases (h : Nonnegative u) :
    u = .zero .positive ∨ ∃ m e hm, u = .finite .positive m e hm ∧ Canonical m e := by
  cases u with
  | notANumber | infinity => exact h.elim
  | zero sign => cases sign with
    | positive => exact .inl rfl
    | negative => exact h.elim
  | finite sign m e hm => cases sign with
    | positive => exact .inr ⟨m, e, hm, rfl, h⟩
    | negative => exact h.elim

theorem Nonnegative.absValue_nonneg {u : UnpackedFloat} (h : Nonnegative u) : 0 ≤ absValue u := by
  obtain rfl | ⟨m, e, hm, rfl, -⟩ := h.cases
  · exact le_rfl
  · rw [absValue_finite]
    positivity

theorem Nearest.nonnegative (h : Nearest q u) : Nonnegative u := by
  cases u with
  | notANumber | infinity => exact h.elim
  | zero sign => cases sign with
    | positive => trivial
    | negative => exact h.elim
  | finite sign m e hm => cases sign with
    | positive => exact h.1
    | negative => exact h.elim

theorem nearest_zero : Nearest 0 (.zero .positive) := by
  refine ⟨le_rfl, ?_⟩
  rw [mul_zero]
  positivity

theorem Nonnegative.mul (hu : Nonnegative u) (hv : Nonnegative v) :
    Nearest (absValue u * absValue v) (u.mul .binary64 v) := by
  obtain rfl | ⟨m₁, e₁, hm₁, rfl, h₁⟩ := hu.cases
  · rw [absValue_zero, zero_mul]
    obtain rfl | ⟨m₂, e₂, hm₂, rfl, h₂⟩ := hv.cases <;> exact nearest_zero
  · obtain rfl | ⟨m₂, e₂, hm₂, rfl, h₂⟩ := hv.cases
    · rw [absValue_zero, mul_zero]
      exact nearest_zero
    · have hvalue : (m₁ * 2 ^ e₁ : ℚ) * (m₂ * 2 ^ e₂) = ((m₁ * m₂ : Nat) : ℚ) * 2 ^ (e₁ + e₂) := by
        rw [zpow_add₀ two_ne_zero]
        push_cast
        ring
      rw [absValue_finite, absValue_finite, hvalue]
      exact nearest_roundWithAccuracy (cut_exact _) (h₁.exponent_add_le h₂ hm₁ hm₂)

/-- A quotient is computed with enough bits. -/
theorem divCore_eq {m₁ m₂ : Nat} {e₁ : Int} (h₁ : Canonical m₁ e₁) (hm₁ : 0 < m₁) (hm₂ : 0 < m₂)
    (e₂ : Int) :
    ∃ (s : Nat) (t : Int), divCore .binary64 m₁ e₁ m₂ e₂ =
        (m₁ <<< s / m₂, t, accuracyOfFraction (m₁ <<< s % m₂) m₂) ∧ e₁ - e₂ = t + s ∧
      t ≤ max ((m₁ <<< s / m₂).log2 + t - 52) (-1074) := by
  obtain ⟨t, ht⟩ : ∃ t, t = min (e₁ - e₂) (Format.binary64.targetExponent
      (totalExponent m₁ e₁ - totalExponent m₂ e₂)) := ⟨_, rfl⟩
  refine ⟨(e₁ - e₂ - t).toNat, t, by rw [divCore, ht], by omega, ?_⟩
  have hmin : Format.binary64.minExponent = -1074 := by decide
  have hbits : Format.binary64.mantissaBits = 53 := by decide
  rw [Format.targetExponent, totalExponent, totalExponent, hmin, hbits] at ht
  have hlog₁ : m₁.log2 < 53 := (Nat.log2_lt hm₁.ne').2 h₁.mantissa
  generalize hs : (e₁ - e₂ - t).toNat = s
  rcases le_or_gt t (-1074) with hleast | hmore
  · exact le_max_of_le_right hleast
  · -- the shift makes the dividend 53 bits longer than the divisor
    have hlow : 2 ^ 52 * m₂ ≤ m₁ <<< s := by
      calc 2 ^ 52 * m₂ ≤ 2 ^ 52 * 2 ^ (m₂.log2 + 1) := Nat.mul_le_mul_left _ Nat.lt_log2_self.le
        _ = 2 ^ m₁.log2 * 2 ^ s := by
          rw [← Nat.pow_add, ← Nat.pow_add]
          congr 1
          omega
        _ ≤ m₁ * 2 ^ s := Nat.mul_le_mul_right _ (Nat.log2_self_le hm₁.ne')
        _ = m₁ <<< s := (Nat.shiftLeft_eq _ _).symm
    have hquotient : 2 ^ 52 ≤ m₁ <<< s / m₂ := (Nat.le_div_iff_mul_le hm₂).2 hlow
    have hlog := (Nat.le_log2 (by omega)).2 hquotient
    omega

theorem Nonnegative.div (hu : Nonnegative u) (hv : Nonnegative v) (hpos : 0 < absValue v) :
    Nearest (absValue u / absValue v) (u.div .binary64 v) := by
  obtain rfl | ⟨m₂, e₂, hm₂, rfl, h₂⟩ := hv.cases
  · exact (lt_irrefl _ hpos).elim
  · obtain rfl | ⟨m₁, e₁, hm₁, rfl, h₁⟩ := hu.cases
    · rw [absValue_zero, zero_div]
      exact nearest_zero
    · obtain ⟨s, t, hcore, hexponent, hbits⟩ := divCore_eq h₁ hm₁ hm₂ e₂
      have hvalue : (m₁ * 2 ^ e₁ : ℚ) / (m₂ * 2 ^ e₂) = (m₁ <<< s : Nat) / m₂ * 2 ^ t := by
        have he : e₁ = t + s + e₂ := by omega
        rw [he, zpow_add₀ two_ne_zero, zpow_add₀ two_ne_zero, zpow_natCast, Nat.shiftLeft_eq]
        push_cast
        field_simp
      rw [absValue_finite, absValue_finite, hvalue]
      have hround := nearest_roundWithAccuracy (cut_div (m₁ <<< s) hm₂) hbits
      rw [UnpackedFloat.div]
      simp only [hcore]
      exact hround

/-- What is in the cell of a number is rounded to that number. -/
theorem Nearest.eq_of_contains {m : Nat} {e : Int} (h : Nearest q u) (hm : 0 < m)
    (hcanonical : Canonical m e) (hq : (Cell.ofBinary m e).Contains q) :
    u = .finite .positive m e hm := by
  obtain rfl | ⟨m', e', hm', rfl, -⟩ := h.nonnegative.cases
  · -- half of the least number is not in its cell, as one is odd
    exfalso
    obtain ⟨-, hhalf⟩ := h
    have hunit : (2 : ℚ) ^ (-1074 : ℤ) ≤ 2 ^ e :=
      zpow_le_zpow_right₀ (by norm_num) hcanonical.exponent
    have hpos : (0 : ℚ) < 2 ^ (-1074 : ℤ) := by positivity
    have hmargin : (Cell.margin m e : ℚ) ≤ 2 := by exact_mod_cast Cell.margin_le m e
    rw [Cell.contains_ofBinary_iff hm] at hq
    split at hq
    · have : (2 : ℚ) ≤ m := by exact_mod_cast (show 2 ≤ m by omega)
      nlinarith [hq.1]
    · have : (1 : ℚ) ≤ m := by exact_mod_cast hm
      nlinarith [hq.1]
  · obtain ⟨rfl, rfl⟩ := Cell.contains_ofBinary_unique hm' hm h.1 hcanonical h.2 hq
    rfl

/-- A short number has a place in the format. -/
theorem Short.exists_canonical {n : Nat} (hn : Short n) (hpos : 0 < n) :
    ∃ m e, 0 < m ∧ Canonical m e ∧ (m : ℚ) * 2 ^ e = n := by
  obtain ⟨k, j, hk, rfl⟩ := hn
  have hkpos : 0 < k := Nat.pos_of_mul_pos_right hpos
  rcases hk.eq_or_lt with rfl | hk
  · refine ⟨2 ^ 52, j + 1, by norm_num, ⟨by norm_num, by omega, .inl le_rfl⟩, ?_⟩
    rw [zpow_add_one₀ two_ne_zero, zpow_natCast]
    push_cast
    ring
  · have hlog : k.log2 < 53 := (Nat.log2_lt hkpos.ne').2 hk
    obtain ⟨s, hs⟩ : ∃ s, k.log2 + s = 52 := ⟨52 - k.log2, by omega⟩
    refine ⟨k * 2 ^ s, j - s, by positivity, ⟨?_, by omega, .inl ?_⟩, ?_⟩
    · calc k * 2 ^ s < 2 ^ (k.log2 + 1) * 2 ^ s :=
            Nat.mul_lt_mul_of_pos_right Nat.lt_log2_self (Nat.two_pow_pos s)
        _ = 2 ^ 53 := by rw [← Nat.pow_add]; congr 1; omega
    · calc 2 ^ 52 = 2 ^ k.log2 * 2 ^ s := by rw [← Nat.pow_add, hs]
        _ ≤ k * 2 ^ s := Nat.mul_le_mul_right _ (Nat.log2_self_le hkpos.ne')
    · rw [zpow_sub₀ two_ne_zero, zpow_natCast, zpow_natCast]
      push_cast
      field_simp

/-- **A short number is not changed by rounding.** -/
theorem Nearest.absValue_eq {n : Nat} (h : Nearest n u) (hn : Short n) : absValue u = n := by
  rcases Nat.eq_zero_or_pos n with rfl | hpos
  · obtain rfl | ⟨m, e, hm, rfl, -⟩ := h.nonnegative.cases
    · exact Nat.cast_zero.symm
    · exfalso
      have hlow := (Cell.Contains.bounds h.2 hm).1
      have hunit : (0 : ℚ) < 2 ^ e := by positivity
      have hmargin : (Cell.margin m e : ℚ) ≤ 2 := by exact_mod_cast Cell.margin_le m e
      have : (1 : ℚ) ≤ m := by exact_mod_cast hm
      push_cast at hlow
      nlinarith
  · obtain ⟨m, e, hm, hcanonical, hvalue⟩ := hn.exists_canonical hpos
    rw [h.eq_of_contains hm hcanonical (hvalue ▸ Cell.contains_self hm)]
    exact hvalue

/-- **Rounding does not pass a short number.** -/
theorem Nearest.absValue_le {b : Nat} (h : Nearest q u) (hb : Short b) (hq : q ≤ b) :
    absValue u ≤ b := by
  obtain rfl | ⟨m, e, hm, rfl, -⟩ := h.nonnegative.cases
  · exact Nat.cast_nonneg b
  · rw [absValue_finite]
    by_contra hlt
    have hunit : (0 : ℚ) < 2 ^ e := by positivity
    have hlow := (h.2.bounds hm).1
    have hmargin : (Cell.margin m e : ℚ) ≤ 2 := by exact_mod_cast Cell.margin_le m e
    have hm1 : (1 : ℚ) ≤ m := by exact_mod_cast hm
    have hpos : 0 < b := by
      have : (0 : ℚ) < 4 * b := by nlinarith
      exact_mod_cast (pos_of_mul_pos_right this (by norm_num))
    obtain ⟨m', e', hm', hcanonical', hvalue⟩ := hb.exists_canonical hpos
    -- the short number would be between the exact one and the other end of the cell
    have hcell : (Cell.ofBinary m e).Contains b := by
      have hcell := h.2
      rw [Cell.contains_ofBinary_iff hm] at hcell ⊢
      split at hcell
      · rename_i hbit
        rw [if_pos hbit]
        constructor <;> linarith [hcell.1]
      · rename_i hbit
        rw [if_neg hbit]
        constructor <;> linarith [hcell.1]
    obtain ⟨rfl, rfl⟩ := Cell.contains_ofBinary_unique hm hm' h.1 hcanonical' hcell
      (hvalue ▸ Cell.contains_self hm')
    exact hlt hvalue.le

/-! ### Packing -/

theorem cast_greatest : (greatest : ℚ) = (2 ^ 53 - 1) * 2 ^ (971 : ℤ) := by
  have hpow : (2 : ℚ) ^ (971 : ℤ) = 2 ^ 971 := zpow_natCast 2 971
  rw [greatest, Nat.cast_mul, Nat.cast_pow, hpow, Nat.cast_sub (by norm_num)]
  norm_num only [Nat.cast_pow, Nat.cast_ofNat, Nat.cast_one]

theorem Nearest.exponent_le {m : Nat} {e : Int} {hm : 0 < m}
    (h : Nearest q (.finite .positive m e hm)) (hq : q ≤ greatest) : e ≤ 971 := by
  by_contra hlarge
  have hstart := Cell.start_le h.1 (by omega)
  have hlow := (Cell.Contains.bounds h.2 hm).1
  have hunit : (2 : ℚ) ^ (972 : ℤ) ≤ 2 ^ e := zpow_le_zpow_right₀ (by norm_num) (by omega)
  have hgreatest : 4 * (greatest : ℚ) = (2 ^ 54 - 2) * 2 ^ (972 : ℤ) := by
    rw [cast_greatest, show (972 : ℤ) = 971 + 1 from rfl, zpow_add_one₀ two_ne_zero]
    ring
  have hless : (2 ^ 54 - 1 : ℚ) * 2 ^ (972 : ℤ) ≤ (2 ^ 54 - 2) * 2 ^ (972 : ℤ) := by
    calc (2 ^ 54 - 1 : ℚ) * 2 ^ (972 : ℤ) ≤ (4 * m - Cell.margin m e) * 2 ^ e :=
          mul_le_mul hstart hunit (by positivity) (by linarith)
      _ ≤ 4 * q := hlow
      _ ≤ 4 * greatest := by gcongr
      _ = (2 ^ 54 - 2) * 2 ^ (972 : ℤ) := hgreatest
  exact absurd (le_of_mul_le_mul_right hless (by positivity)) (by norm_num)

/-- What is packed without becoming infinite is not changed by that. -/
theorem Nonnegative.unpack_pack (hu : Nonnegative u)
    (hfinite : (Float.Model.pack u).unpack.isInf = false) : (Float.Model.pack u).unpack = u := by
  obtain rfl | ⟨m, e, hm, rfl, h⟩ := hu.cases
  · exact unpack_packedZero
  · refine Binary.unpack_pack h ?_ _ hm
    by_contra hlarge
    have hbias : 2 ^ 11 ≤ (e + (1023 : Nat) + (52 : Nat)).toNat + 1 := by omega
    have hpack : (Float.Model.pack (.finite .positive m e hm)).unpack = .infinity .positive := by
      rw [Float.Model.pack, Float.Model.unpack]
      simp only [UnpackedFloat.pack, exponent_bias, if_pos hbias]
      rfl
    rw [hpack] at hfinite
    cases hfinite

theorem Nearest.unpack_pack (h : Nearest q u) (hq : q ≤ greatest) :
    (Float.Model.pack u).unpack = u := by
  obtain rfl | ⟨m, e, hm, rfl, hcanonical⟩ := h.nonnegative.cases
  · exact unpack_packedZero
  · exact Binary.unpack_pack hcanonical (h.exponent_le hq) _ hm

end

/-! ### Arithmetic of 64 bits -/

/-- The size of a number. -/
def absFloat (x : Float) : ℚ := absValue x.toModel.unpack

/-- A number of 64 bits is the nearest one to a fraction. -/
def FloatNearest (q : ℚ) (x : Float) : Prop := Nearest q x.toModel.unpack

section

variable {p q : ℚ} {u : UnpackedFloat} {x y : Float}

theorem floatNearest_mul (hx : Nonnegative x.toModel.unpack) (hy : Nonnegative y.toModel.unpack)
    (hfinite : (x * y).isInf = false) : FloatNearest (absFloat x * absFloat y) (x * y) := by
  have hmul := hx.mul hy
  have hpack : (x * y).toModel.unpack = x.toModel.unpack.mul .binary64 y.toModel.unpack :=
    hmul.nonnegative.unpack_pack hfinite
  rw [FloatNearest, hpack]
  exact hmul

/-- A product that is in range does not become infinite. -/
theorem isInf_mul (hx : Nonnegative x.toModel.unpack) (hy : Nonnegative y.toModel.unpack)
    (hle : absFloat x * absFloat y ≤ greatest) : (x * y).isInf = false := by
  have hmul := hx.mul hy
  have hpack : (x * y).toModel.unpack = x.toModel.unpack.mul .binary64 y.toModel.unpack :=
    hmul.unpack_pack hle
  show (x * y).toModel.unpack.isInf = false
  rw [hpack]
  obtain hu | ⟨m, e, hm, hu, -⟩ := hmul.nonnegative.cases <;> rw [hu] <;> rfl

/-- A product of short numbers. -/
theorem FloatNearest.mul_short {a b : Nat} (hx : FloatNearest a x) (hy : FloatNearest b y)
    (ha : Short a) (hb : Short b) (hle : ((a * b : Nat) : ℚ) ≤ greatest) :
    FloatNearest (a * b : Nat) (x * y) := by
  have hvalue : ((a * b : Nat) : ℚ) = absFloat x * absFloat y := by
    rw [absFloat, absFloat, hx.absValue_eq ha, hy.absValue_eq hb, Nat.cast_mul]
  rw [hvalue] at hle ⊢
  exact floatNearest_mul hx.nonnegative hy.nonnegative
    (isInf_mul hx.nonnegative hy.nonnegative hle)

theorem floatNearest_div (hx : Nonnegative x.toModel.unpack) (hy : Nonnegative y.toModel.unpack)
    (hpos : 0 < absFloat y) (hle : absFloat x / absFloat y ≤ greatest) :
    FloatNearest (absFloat x / absFloat y) (x / y) := by
  have hdiv := hx.div hy hpos
  have hpack : (x / y).toModel.unpack = x.toModel.unpack.div .binary64 y.toModel.unpack :=
    hdiv.unpack_pack hle
  rw [FloatNearest, hpack]
  exact hdiv

theorem RoundsNat.nearest {n : Nat} {u : UnpackedFloat} (h : RoundsNat n u) : Nearest n u := by
  obtain ⟨k, rfl, hbits⟩ := h
  rw [← shiftLeft_mul_zpow n k]
  exact nearest_roundWithAccuracy (cut_exact _) hbits

theorem nearest_ofNat (n : Nat) : Nearest n (UnpackedFloat.ofNat .binary64 n) := by
  rcases Nat.eq_zero_or_pos n with rfl | hn
  · exact_mod_cast nearest_zero
  · exact (roundsNat_ofNat hn).nearest

theorem nearest_ofScientific (n : Nat) {exponent : Nat} (hexponent : exponent ≤ 2048) :
    Nearest (n * 10 ^ exponent : Nat) (UnpackedFloat.ofScientific .binary64 n exponent) := by
  rcases Nat.eq_zero_or_pos n with rfl | hn
  · rw [Nat.zero_mul]
    exact_mod_cast nearest_zero
  · exact (roundsNat_ofScientific hn hexponent).nearest

/-- What is rounded and then packed. -/
theorem Nearest.float (h : Nearest q u) (hq : q ≤ greatest) :
    FloatNearest q (.ofModel (Float.Model.pack u)) := by
  show Nearest q (Float.Model.pack u).unpack
  rwa [h.unpack_pack hq]

theorem le_greatest {n : Nat} (hn : n < UInt64.size) : n ≤ greatest :=
  hn.le.trans (two_pow_le_greatest (k := 64) (by norm_num))

theorem floatNearest_toUInt64 {n : Nat} (hn : n < UInt64.size) :
    FloatNearest n n.toUInt64.toFloat := by
  have hnat : n.toUInt64.toNat = n := by
    rw [Nat.toUInt64_eq, UInt64.toNat_ofNat']
    exact Nat.mod_eq_of_lt hn
  have hmodel : n.toUInt64.toFloat = .ofModel (.pack (.ofNat .binary64 n)) := by
    show Float.ofModel (.pack (.ofNat .binary64 n.toUInt64.toNat)) = _
    rw [hnat]
  rw [hmodel]
  exact (nearest_ofNat n).float (Nat.cast_le.2 (le_greatest hn))

theorem short_power {e : Nat} (he : e ≤ 22) : Short (10 ^ e) := by
  refine ⟨5 ^ e, e, ?_, by rw [← Nat.mul_pow]⟩
  exact (Nat.pow_le_pow_right (by norm_num) he).trans (by norm_num)

theorem floatNearest_power (e : Fin 23) :
    FloatNearest (10 ^ e.val : Nat) Float.exactlyRepresentablePowersOfTen[e] := by
  have hpower : 10 ^ e.val ≤ greatest := ten_pow_le_greatest (e.isLt.le.trans (by norm_num))
  have hround := nearest_ofScientific 1 (e.isLt.le.trans (by norm_num))
  rw [Nat.one_mul] at hround
  rw [exactlyRepresentablePowersOfTen_eq e]
  exact hround.float (Nat.cast_le.2 hpower)

/-- **Whole decimals are read as the nearest numbers.** -/
theorem floatNearest_ofScientific {n exponent : Nat} (hle : n * 10 ^ exponent ≤ greatest)
    (hexponent : exponent ≤ 2048) :
    FloatNearest (n * 10 ^ exponent : Nat) (Float.ofScientific n false exponent) := by
  have hlarge : ((n * 10 ^ exponent : Nat) : ℚ) ≤ greatest := Nat.cast_le.2 hle
  rw [Float.ofScientific]
  split
  · rename_i hsmall
    obtain ⟨hn, he⟩ := hsmall
    have hint := floatNearest_toUInt64 (hn.trans (by decide))
    have hten := floatNearest_power ⟨exponent, Nat.lt_succ_of_le he⟩
    exact hint.mul_short hten ⟨n, 0, hn.le, (Nat.mul_one n).symm⟩ (short_power he) hlarge
  · exact (nearest_ofScientific n hexponent).float hlarge

theorem floatNearest_ofNat {n : Nat} (hn : n ≤ greatest) : FloatNearest n (Float.ofNat n) := by
  have hround : FloatNearest (n * 10 ^ 0 : Nat) (Float.ofScientific n false 0) := by
    refine floatNearest_ofScientific ?_ (Nat.zero_le _)
    rwa [Nat.pow_zero, Nat.mul_one]
  rw [Nat.pow_zero, Nat.mul_one] at hround
  exact hround

theorem floatNearest_tenTo {k : Nat} (hk : k ≤ 308) :
    FloatNearest (10 ^ k : Nat) (Float.ofScientific 1 false k) := by
  have hle := ten_pow_le_greatest hk
  have hround := floatNearest_ofScientific (n := 1) (by rwa [Nat.one_mul]) (hk.trans (by norm_num))
  rwa [Nat.one_mul] at hround

end

end Binary

end Scriptlet
