import Mathlib
import Scriptlet.Decimal.Binary

/-!
# How numbers of 64 bits are computed

A number is taken apart into its sign, its mantissa and a power of two. It has one such form, with
all 53 bits unless its exponent is the least, and what is put together again in this form is the
number that it was.

A result is rounded in this form. It is shifted to the unit of its last bit, and that unit is known
before the shift from the bits that the result has. If the mantissa is rounded up to one bit more
then there is another shift, which loses nothing.

## Main definitions

* `Binary.Canonical` — how a number is written down
* `Binary.Short` — whole numbers that 53 bits and zeros are enough for
* `Binary.greatest` — the greatest number
* `Binary.RoundsNat` — a whole number that is rounded

## Main results

* `Binary.shiftToTargetExponent_eq`, `Binary.shiftToTargetExponent_carry` — the shifts before and
  after a rounding
* `Binary.unpack_pack` — packing does not change what is written down
* `Binary.ofFloat_eq` — the parts of a number that its text is made of are those that its arithmetic
  uses
* `Binary.roundsNat_ofNat`, `Binary.roundsNat_ofScientific` — whole decimals are rounded once
-/

namespace Scriptlet

namespace Binary

open Float.Model Float.Model.UnpackedFloat

/-! ### Shifting -/

/-- Shifting a multiple loses nothing. -/
theorem shiftRight_multiple (c k : Nat) :
    ExtendedMantissa.ofMantissaAndAccuracy (c * 2 ^ k) .exact >>> k =
      ExtendedMantissa.ofMantissaAndAccuracy c .exact := by
  induction k generalizing c with
  | zero => rw [Nat.pow_zero, Nat.mul_one]; rfl
  | succ k ih =>
    have hstep : ExtendedMantissa.ofMantissaAndAccuracy (c * 2 ^ (k + 1)) .exact >>> (k + 1) =
        (ExtendedMantissa.ofMantissaAndAccuracy (c * 2 ^ (k + 1)) .exact >>> k).shiftRightOne := rfl
    have hsplit : c * 2 ^ (k + 1) = 2 * c * 2 ^ k := by ring
    rw [hstep, hsplit, ih]
    simp [ExtendedMantissa.ofMantissaAndAccuracy, ExtendedMantissa.shiftRightOne]

theorem targetExponent_eq (m : Nat) (e : Int) :
    Format.binary64.targetExponent (totalExponent m e) = max (m.log2 + e - 52) (-1074) := by
  have hmin : Format.binary64.minExponent = -1074 := by decide
  have hbits : Format.binary64.mantissaBits = 53 := by decide
  rw [Format.targetExponent, totalExponent, hmin, hbits]
  omega

/-- A number of up to 53 bits with zeros behind them. -/
def Short (b : Nat) : Prop := ∃ k j, k ≤ 2 ^ 53 ∧ b = k * 2 ^ j

/-- How a number of the format is written down: with all its bits, unless it has the least
exponent. -/
structure Canonical (m : Nat) (e : Int) : Prop where
  mantissa : m < 2 ^ 53
  exponent : -1074 ≤ e
  full : 2 ^ 52 ≤ m ∨ e = -1074

/-- The first shift goes to the unit that a number is rounded to. -/
theorem shiftToTargetExponent_eq {m k : Nat} {e : Int} (accuracy : Accuracy)
    (h : max ((m.log2 : Int) + e - 52) (-1074) = e + k) :
    shiftToTargetExponent .binary64 m e accuracy =
      (ExtendedMantissa.ofMantissaAndAccuracy m accuracy >>> k, e + k) := by
  have hshift : (e + k - e).toNat = k := by omega
  rw [shiftToTargetExponent, targetExponent_eq, h, shiftToExponent]
  simp only [hshift]

/-- After a rounding that needs one bit more there is one more shift, which loses nothing. -/
theorem shiftToTargetExponent_carry {r : Nat} {e : Int} (hr : r ≤ 2 ^ 53) (he : -1074 ≤ e)
    (hfull : 2 ^ 52 ≤ r ∨ e = -1074) :
    ∃ m e', shiftToTargetExponent .binary64 r e .exact =
        (ExtendedMantissa.ofMantissaAndAccuracy m .exact, e') ∧
      (m : ℚ) * 2 ^ e' = r * 2 ^ e ∧ Canonical m e' := by
  rcases hr.eq_or_lt with rfl | hr
  · refine ⟨2 ^ 52, e + 1, ?_, ?_, by norm_num, by omega, .inl (by norm_num)⟩
    · rw [shiftToTargetExponent, targetExponent_eq, Nat.log2_two_pow, shiftToExponent]
      have hshift : (max (((53 : Nat) : Int) + e - 52) (-1074) - e).toNat = 1 := by omega
      simp only [hshift]
      refine Prod.ext ?_ (by simp)
      exact shiftRight_multiple (2 ^ 52) 1
    · rw [zpow_add₀ (by norm_num : (2 : ℚ) ≠ 0)]
      push_cast
      ring
  · refine ⟨r, e, ?_, rfl, hr, he, hfull⟩
    have hlog : r.log2 ≤ 52 := by
      by_cases h : r = 0
      · simp [h]
      · have := (Nat.log2_lt h).2 hr
        omega
    rw [shiftToTargetExponent, targetExponent_eq, shiftToExponent]
    have hshift : (max ((r.log2 : Int) + e - 52) (-1074) - e).toNat = 0 := by omega
    simp only [hshift]
    exact Prod.ext rfl (by simp)

/-! ### Packing -/

theorem exponent_bias : Format.binary64.exponentBias = 1023 := by decide

theorem toNat_append_one (f : BitVec 52) : (1#1 ++ f).toNat = 2 ^ 52 + f.toNat := by
  rw [BitVec.toNat_append, ← Nat.shiftLeft_add_eq_or_of_lt f.isLt]
  simp [Nat.shiftLeft_eq]

/-- What the three fields of a number say. -/
theorem unpack_packComponents (sign : Sign) (exponent : BitVec 11) (fraction : BitVec 52) :
    UnpackedFloat.unpack .binary64 (packComponents .binary64 sign exponent fraction) =
      if exponent = -1#11 then
        if fraction = 0#52 then .infinity sign else .notANumber
      else if exponent = 0#11 then
        if h : fraction = 0#52 then .zero sign
        else .finite sign fraction.toNat (-1074)
          (Nat.pos_of_ne_zero fun h' => h (BitVec.eq_of_toNat_eq h'))
      else .finite sign (2 ^ 52 + fraction.toNat) (exponent.toNat - 1075) (by positivity) := by
  rw [UnpackedFloat.unpack]
  simp only [unpackMantissa_packComponents, unpackExponent_packComponents,
    unpackSign_packComponents, Sign.ofBitVec_toBitVec, toNat_append_one, exponent_bias]
  by_cases h : exponent = 0#11
  · subst h
    rfl
  · simp only [h, if_false]
    rfl

/-- What is written down and has a place in the format is not changed by packing. -/
theorem unpack_pack {m : Nat} {e : Int} (h : Canonical m e) (he : e ≤ 971) (sign : Sign)
    (hm : 0 < m) :
    (Float.Model.pack (.finite sign m e hm)).unpack = .finite sign m e hm := by
  obtain ⟨hmantissa, hexponent, hfull⟩ := h
  have hbias : ¬ 2 ^ 11 ≤ (e + (1023 : Nat) + (52 : Nat)).toNat + 1 := by omega
  have hlog : m.log2 + 1 = 53 ↔ 2 ^ 52 ≤ m := by
    have := Nat.le_log2 (k := 52) hm.ne'
    have := Nat.log2_lt (k := 53) hm.ne'
    omega
  have hpack : (Float.Model.pack (.finite sign m e hm)).unpack = UnpackedFloat.unpack .binary64
      (if m.log2 + 1 = 53 then packComponents .binary64 sign
          (BitVec.ofNat 11 (e + (1023 : Nat) + (52 : Nat)).toNat) (BitVec.ofNat 52 m)
        else packComponents .binary64 sign 0#11 (BitVec.ofNat 52 m)) := by
    rw [Float.Model.pack, Float.Model.unpack]
    simp only [UnpackedFloat.pack, exponent_bias, if_neg hbias, Format.mantissaBits]
  rw [hpack]
  by_cases hnormal : 2 ^ 52 ≤ m
  · have hexp :
        (BitVec.ofNat 11 (e + (1023 : Nat) + (52 : Nat)).toNat).toNat = (e + 1075).toNat := by
      rw [BitVec.toNat_ofNat]
      omega
    have hfraction : 2 ^ 52 + (BitVec.ofNat 52 m).toNat = m := by
      rw [BitVec.toNat_ofNat]
      omega
    have hne (c : BitVec 11) (hc : c.toNat ≠ (e + 1075).toNat) :
        BitVec.ofNat 11 (e + (1023 : Nat) + (52 : Nat)).toNat ≠ c := fun h => hc (h ▸ hexp)
    have hones := hne (-1#11) (show 2047 ≠ (e + 1075).toNat by omega)
    have hzero := hne 0#11 (show 0 ≠ (e + 1075).toNat by omega)
    rw [if_pos (hlog.2 hnormal), unpack_packComponents, if_neg hones, if_neg hzero]
    simp only [hfraction, hexp]
    congr 1
    omega
  · have hfraction : (BitVec.ofNat 52 m).toNat = m := by
      rw [BitVec.toNat_ofNat]
      omega
    have hzero : BitVec.ofNat 52 m ≠ 0#52 := by
      intro h
      rw [h] at hfraction
      exact hm.ne hfraction
    rw [if_neg (mt hlog.1 hnormal), unpack_packComponents, if_neg (by decide), if_pos rfl,
      dif_neg hzero]
    simp only [hfraction, hfull.resolve_left hnormal]

/-- Three fields make up a number. -/
theorem exists_packComponents (x : Float.Model) :
    ∃ (sign : Sign) (exponent : BitVec 11) (fraction : BitVec 52),
      x.toBits.toBitVec = packComponents .binary64 sign exponent fraction :=
  ⟨_, _, _, (@packComponents_unpackSign_unpackExponent_unpackMantissa .binary64 _).symm⟩

theorem canonical_of_unpack {x : Float.Model} {sign : Sign} {m : Nat} {e : Int} {hm : 0 < m}
    (h : x.unpack = .finite sign m e hm) : Canonical m e ∧ e ≤ 971 := by
  obtain ⟨s, exponent, fraction, hx⟩ := exists_packComponents x
  rw [Float.Model.unpack, hx, unpack_packComponents] at h
  have hfraction := fraction.isLt
  have hexponent := exponent.isLt
  split_ifs at h with h1 h2 h3 h4
  · cases h
    exact ⟨⟨by omega, by omega, .inr rfl⟩, by omega⟩
  · cases h
    have hones : exponent.toNat ≠ 2047 := fun h => h1 (BitVec.eq_of_toNat_eq h)
    have hzero : exponent.toNat ≠ 0 := fun h => h3 (BitVec.eq_of_toNat_eq h)
    exact ⟨⟨by omega, by omega, .inl (by omega)⟩, by omega⟩

/-- The parts of a number that was taken apart. -/
def partsOf : UnpackedFloat → BinaryParts
  | .notANumber => .notANumber
  | .infinity sign => .infinite (sign == .negative)
  | .zero sign => .finite (sign == .negative) 0 (-1074)
  | .finite sign m e _ => .finite (sign == .negative) m e

theorem toNat_packComponents (sign : Sign) (exponent : BitVec 11) (fraction : BitVec 52) :
    (packComponents .binary64 sign exponent fraction).toNat =
      (sign.toBitVec.toNat * 2 ^ 11 + exponent.toNat) * 2 ^ 52 + fraction.toNat := by
  rw [packComponents, BitVec.toNat_append, ← Nat.shiftLeft_add_eq_or_of_lt fraction.isLt,
    BitVec.toNat_append, ← Nat.shiftLeft_add_eq_or_of_lt exponent.isLt, Nat.shiftLeft_eq,
    Nat.shiftLeft_eq]

theorem ofFloat_eq (x : Float) : BinaryParts.ofFloat x = partsOf x.toModel.unpack := by
  obtain ⟨sign, exponent, fraction, hx⟩ := exists_packComponents x.toModel
  have hfraction := fraction.isLt
  have hexponent := exponent.isLt
  have hsign : sign.toBitVec.toNat = if sign == .negative then 1 else 0 := by
    cases sign <;> rfl
  obtain ⟨n, hn⟩ : ∃ n, n = (packComponents .binary64 sign exponent fraction).toNat := ⟨_, rfl⟩
  have hbits : x.toBits.toNat = n := by
    rw [hn, ← hx]
    rfl
  rw [toNat_packComponents, hsign] at hn
  have hfield : (n >>> 52) % 2048 = exponent.toNat := by
    rw [Nat.shiftRight_eq_div_pow]
    split at hn <;> omega
  have hrest : n % leadingBit = fraction.toNat := by
    rw [leadingBit, Nat.one_shiftLeft]
    split at hn <;> omega
  have hnegative : n.testBit 63 = (sign == .negative) := by
    rw [Nat.testBit_eq_decide_div_mod_eq]
    split at hn <;> rename_i hs <;>
      simp only [hs, decide_eq_true_eq, decide_eq_false_iff_not] <;> omega
  have hones : exponent.toNat = 2047 ↔ exponent = -1#11 :=
    ⟨fun h => BitVec.eq_of_toNat_eq h, fun h => h ▸ rfl⟩
  have hzero : exponent.toNat = 0 ↔ exponent = 0#11 :=
    ⟨fun h => BitVec.eq_of_toNat_eq h, fun h => h ▸ rfl⟩
  have hempty : fraction.toNat = 0 ↔ fraction = 0#52 :=
    ⟨fun h => BitVec.eq_of_toNat_eq h, fun h => h ▸ rfl⟩
  rw [BinaryParts.ofFloat, hbits, BinaryParts.ofBits, hfield, hrest, hnegative, Float.Model.unpack,
    hx, unpack_packComponents]
  simp only [hones, hzero, hempty]
  split_ifs with h1 h2 h3 h4
  · rfl
  · rfl
  · rw [hempty.2 h4]
    rfl
  · rfl
  · rw [Nat.add_comm]
    rfl

/-- The parts of a finite number are how it is written down. -/
theorem canonical_of_ofFloat {x : Float} {negative : Bool} {m : Nat} {e : Int}
    (h : BinaryParts.ofFloat x = .finite negative m e) : Canonical m e := by
  rw [ofFloat_eq] at h
  cases hu : x.toModel.unpack with
  | notANumber | infinity => rw [hu] at h; cases h
  | zero sign =>
    rw [hu] at h
    obtain ⟨-, rfl, rfl⟩ := BinaryParts.finite.inj h
    exact ⟨by norm_num, by norm_num, .inr rfl⟩
  | finite sign m' e' hm =>
    rw [hu] at h
    obtain ⟨-, rfl, rfl⟩ := BinaryParts.finite.inj h
    exact (canonical_of_unpack hu).1

theorem exists_ofFloat {x : Float} (hx : x.isFinite) :
    ∃ negative m e, BinaryParts.ofFloat x = .finite negative m e := by
  have hunpack : x.toModel.unpack.isFinite := hx
  rw [ofFloat_eq]
  cases hu : x.toModel.unpack with
  | notANumber | infinity => rw [hu] at hunpack; cases hunpack
  | zero | finite => exact ⟨_, _, _, rfl⟩

/-! ### Arithmetic -/

/-- The greatest number of 64 bits. -/
def greatest : Nat := (2 ^ 53 - 1) * 2 ^ 971

theorem two_pow_le_greatest {k : Nat} (hk : k ≤ 1023) : 2 ^ k ≤ greatest := by
  obtain ⟨j, hj⟩ : ∃ j, j = 971 := ⟨_, rfl⟩
  rw [greatest, ← hj]
  calc 2 ^ k ≤ 2 ^ (52 + j) := Nat.pow_le_pow_right two_pos (by omega)
    _ = 2 ^ 52 * 2 ^ j := Nat.pow_add _ _ _
    _ ≤ (2 ^ 53 - 1) * 2 ^ j := Nat.mul_le_mul_right _ (by norm_num)

theorem ten_pow_le_greatest {k : Nat} (hk : k ≤ 308) : 10 ^ k ≤ greatest :=
  (Nat.pow_le_pow_right (by norm_num) hk).trans (by decide +kernel)

/-- A product of two numbers has enough bits, unless both have the least exponent. -/
theorem Canonical.exponent_add_le {m₁ m₂ : Nat} {e₁ e₂ : Int} (h₁ : Canonical m₁ e₁)
    (h₂ : Canonical m₂ e₂) (hm₁ : 0 < m₁) (hm₂ : 0 < m₂) :
    e₁ + e₂ ≤ max ((m₁ * m₂).log2 + (e₁ + e₂) - 52) (-1074) := by
  have hlog (hfull : 2 ^ 52 ≤ m₁ * m₂) : 52 ≤ (m₁ * m₂).log2 :=
    (Nat.le_log2 (Nat.mul_pos hm₁ hm₂).ne').2 hfull
  rcases h₁.full with hfull | hleast₁
  · have := hlog (hfull.trans (Nat.le_mul_of_pos_right _ hm₂))
    omega
  · rcases h₂.full with hfull | hleast₂
    · have := hlog (hfull.trans (Nat.le_mul_of_pos_left _ hm₁))
      omega
    · omega

/-- A whole number that is rounded, after it got at least as many bits as the format has. -/
def RoundsNat (n : Nat) (u : UnpackedFloat) : Prop :=
  ∃ k : Nat, u = roundWithAccuracy .binary64 .positive (n <<< k) (-k) .exact ∧
    (-k : Int) ≤ max ((n <<< k).log2 + (-k : Int) - 52) (-1074)

theorem shiftLeft_pos {n : Nat} (hn : 0 < n) (k : Nat) : 0 < n <<< k := by
  rw [Nat.shiftLeft_eq]
  positivity

theorem shiftLeft_mul_zpow (n k : Nat) : ((n <<< k : Nat) : ℚ) * 2 ^ (-k : Int) = n := by
  rw [Nat.shiftLeft_eq, zpow_neg, zpow_natCast]
  push_cast
  rw [mul_assoc, mul_inv_cancel₀ (by positivity), mul_one]

theorem roundsNat_ofNat {n : Nat} (hn : 0 < n) : RoundsNat n (UnpackedFloat.ofNat .binary64 n) := by
  refine ⟨(0 - max ((n.log2 : Int) + 0 - 52) (-1074)).toNat, ?_, ?_⟩
  · have hcompare : compare (n : Int) 0 = .gt := Int.compare_eq_gt.2 (by omega)
    rw [UnpackedFloat.ofNat, UnpackedFloat.ofInt, UnpackedFloat.normalize, hcompare]
    simp only [Int.toNat_natCast, UnpackedFloat.round, targetExponent_eq, decreaseExponent,
      zero_sub]
  · generalize hk : (0 - max ((n.log2 : Int) + 0 - 52) (-1074)).toNat = k
    have hlog : (n <<< k).log2 = n.log2 + k := by
      rw [Nat.log2_eq_iff (shiftLeft_pos hn k).ne', Nat.shiftLeft_eq, Nat.pow_add,
        Nat.add_right_comm, Nat.pow_add]
      exact ⟨Nat.mul_le_mul_right _ (Nat.log2_self_le hn.ne'),
        Nat.mul_lt_mul_of_pos_right Nat.lt_log2_self (Nat.two_pow_pos k)⟩
    omega

/-- A power of ten is multiplied by before anything is rounded. -/
theorem roundsNat_ofScientific {n exponent : Nat} (hn : 0 < n) (hexponent : exponent ≤ 2048) :
    RoundsNat (n * 10 ^ exponent) (UnpackedFloat.ofScientific .binary64 n exponent) := by
  have hpos : 0 < n * 10 ^ exponent := by positivity
  have hmul (k : Nat) : n <<< k * 10 ^ exponent = (n * 10 ^ exponent) <<< k := by
    rw [Nat.shiftLeft_eq, Nat.shiftLeft_eq, Nat.mul_right_comm]
  have hlog (k : Nat) : k ≤ ((n * 10 ^ exponent) <<< k).log2 := by
    rw [Nat.le_log2 (shiftLeft_pos hpos k).ne', Nat.shiftLeft_eq]
    exact Nat.le_mul_of_pos_left _ hpos
  refine ⟨53, ?_, ?_⟩
  · have hlarge : ¬ (exponent : Int) > 2 ^ Format.binary64.exponentBits := by
      show ¬ (exponent : Int) > 2 ^ 11
      omega
    have hsmall : ¬ (exponent : Int) < -((2 ^ Format.binary64.exponentBits : Int) + n.log2) := by
      show ¬ (exponent : Int) < -((2 ^ 11 : Int) + n.log2)
      omega
    rw [UnpackedFloat.ofScientific, dif_neg hn.ne', if_neg hlarge, if_neg hsmall,
      if_pos (by omega), ← hmul]
    show roundWithAccuracy .binary64 .positive (n <<< 53 * 10 ^ (exponent : Int).toNat)
      (-(53 : Nat) + 0) .exact = _
    rw [Int.toNat_natCast, Int.add_zero]
  · have := hlog 53
    omega

/-- The table of small powers of ten agrees with how large ones are computed. -/
theorem exactlyRepresentablePowersOfTen_eq : ∀ e : Fin 23,
    Float.exactlyRepresentablePowersOfTen[e] = .ofModel (Float.Model.ofScientific 1 e) := by
  decide +kernel

end Binary

end Scriptlet
