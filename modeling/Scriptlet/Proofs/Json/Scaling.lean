import Mathlib
import Scriptlet.Proofs.Decimal.Error
import Scriptlet.Proofs.Decimal.Positional
import Scriptlet.Proofs.Json.Number

/-!
# Numbers of JSON that are read back

What is written for a finite number stands for a decimal in its cell, and so it says which number it
is. The reader does not make use of that. It rounds the digits, it rounds the power of ten that they
are scaled by, and it rounds the result, and where that power is out of range it scales twice. So
what is read may be another number, but one that is not far away.

If the digits fit into 53 bits, apart from zeros behind them, and the power of ten is small, then
only the result is rounded, and it is rounded to the number that was written.

## Main definitions

* `JsonNumber.Exact` — a number for which only the result is rounded
* `JsonNumber.Beside` — how far away the number is that is read

## Main results

* `JsonNumber.near_scale`, `JsonNumber.floatNearest_scale` — how often scaling rounds
* `JsonNumber.ofFloat?_inj` — what is written for a number says which one it is
* `JsonNumber.float?_of_ofFloat?` — what is read for a number that was written
-/

namespace Scriptlet

open Binary

namespace JsonNumber

open Float.Model Float.Model.UnpackedFloat

/-! ### Scaling -/

theorem least_le_natCast {n : Nat} (hn : 0 < n) : (2 : ℚ) ^ (-1022 : ℤ) ≤ n := by
  have hone : (1 : ℚ) ≤ n := by exact_mod_cast hn
  exact (zpow_le_one_of_nonpos₀ (by norm_num) (by norm_num)).trans hone

theorem floatNear_ofNat {n : Nat} (hpos : 0 < n) (hn : n < UInt64.size) :
    FloatNear 1 n (Float.ofNat n) :=
  (floatNearest_ofNat (le_greatest hn)).near (least_le_natCast hpos)

theorem floatNear_tenTo {k : Nat} (hk : k ≤ 308) :
    FloatNear 1 (10 ^ k) (Float.ofScientific 1 false k) := by
  have hnear := (floatNearest_tenTo hk).near (least_le_natCast (by positivity))
  rwa [Nat.cast_pow, Nat.cast_ofNat] at hnear

/-- What is left of a number that is divided by the largest power of ten. -/
theorem least_le_quotient {n : Nat} {q : ℚ} (hn : 0 < n) (h : Near 2 (n / 10 ^ 308) q) :
    (2 : ℚ) ^ (-1022 : ℤ) ≤ 5 / 2 * q := by
  have hpow {i j : Nat} (hij : 200 * 10 ^ i ≤ 495 * 2 ^ j) :
      (2 : ℚ) ^ (-j : ℤ) ≤ 5 / 2 * (99 / 100 * (1 / 10 ^ i)) := by
    have hcast : (200 * 10 ^ i : ℚ) ≤ 495 * 2 ^ j := by exact_mod_cast hij
    have hvalue : 5 / 2 * (99 / 100 * (1 / 10 ^ i)) * 2 ^ j =
        (495 * 2 ^ j : ℚ) / (200 * 10 ^ i) := by
      field_simp
      norm_num
    rw [zpow_neg, zpow_natCast, inv_le_iff_one_le_mul₀ (by positivity), hvalue]
    exact (one_le_div (by positivity)).2 hcast
  have hlow : 99 / 100 * (1 / 10 ^ 308) ≤ q := by
    have hone : (1 : ℚ) ≤ n := by exact_mod_cast hn
    have hfactor : 99 / 100 ≤ (1 - roundoff) ^ 2 := by norm_num [roundoff]
    refine le_trans ?_ h.1
    gcongr
  exact (hpow (by decide +kernel : 200 * 10 ^ 308 ≤ 495 * 2 ^ 1022)).trans
    (mul_le_mul_of_nonneg_left hlow (by norm_num))

theorem quotient_le {n : Nat} (hn : n < UInt64.size) (k : Nat) : (n : ℚ) / 10 ^ k ≤ 2 ^ 100 := by
  have hn64 : (n : ℚ) ≤ 2 ^ 64 := by exact_mod_cast hn.le
  calc (n : ℚ) / 10 ^ k ≤ n := div_le_self (Nat.cast_nonneg n) (one_le_pow₀ (by norm_num))
    _ ≤ 2 ^ 64 := hn64
    _ ≤ 2 ^ 100 := by norm_num

/-- One division by the largest power of ten, or none. -/
theorem floatNear_shrink {n times : Nat} (hpos : 0 < n) (hn : n < UInt64.size)
    (htimes : times ≤ 1) :
    FloatNear 5 (n / 10 ^ (308 * times)) (shrink (Float.ofNat n) times) := by
  have hint := floatNear_ofNat hpos hn
  have hn0 : (0 : ℚ) < n := by exact_mod_cast hpos
  match times, htimes with
  | 0, _ =>
    rw [shrink, Nat.mul_zero, pow_zero, div_one]
    exact ⟨hint.nonnegative, hint.near.mono (by norm_num) hn0.le hint.nonnegative.absValue_nonneg⟩
  | 1, _ =>
    obtain ⟨q, hq, -, hround⟩ := hint.div (floatNear_tenTo le_rfl) (by norm_num) hn0.le
      (by positivity) (quotient_le hn 308)
    rw [shrink, hint.beq_zero hn0]
    exact ⟨hround.nonnegative, hq.trans (hround.near_of_le (least_le_quotient hpos hq))⟩

/-- **Scaling rounds a few times**: six times at most, if what very small numbers lose is counted
three times, and then once more. -/
theorem near_scale {n : Nat} {exponent : Int} {x : Float} (hpos : 0 < n) (hn : n < UInt64.size)
    (hexponent : -616 ≤ exponent) (h : scale? n exponent = some x) :
    ∃ q, Near 6 (n * 10 ^ exponent) q ∧ 0 ≤ q ∧ FloatNearest q x := by
  have hint := floatNear_ofNat hpos hn
  have hn0 : (0 : ℚ) < n := by exact_mod_cast hpos
  rw [scale?] at h
  simp only at h
  split at h
  · rw [hint.beq_zero hn0] at h
    cases h
  · split at h
    · -- a product of two numbers that were rounded once each
      rename_i hsmall hwhole
      obtain ⟨k, rfl⟩ := Int.eq_ofNat_of_zero_le hwhole
      rw [Int.toNat_natCast] at h
      split at h
      · cases h
      · rename_i hinf
        obtain rfl := Option.some.inj h
        obtain ⟨q, hq, hq0, hround⟩ := hint.mul (floatNear_tenTo (by omega : k ≤ 308)) hn0.le
          (by positivity) (Bool.eq_false_iff.2 hinf)
        rw [zpow_natCast]
        exact ⟨q, hq.mono (by norm_num) (by positivity) hq0, hq0, hround⟩
    · -- a quotient of what is left after at most one division by the largest power of ten
      rename_i hneg
      obtain rfl := Option.some.inj h
      obtain ⟨p, rfl⟩ : ∃ p : Nat, exponent = -p := ⟨exponent.natAbs, by omega⟩
      rw [Int.natAbs_neg, Int.natAbs_natCast]
      obtain ⟨times, ht⟩ : ∃ times, (p - 1) / 308 = times := ⟨_, rfl⟩
      obtain ⟨k, hk⟩ : ∃ k, p - 308 * times = k := ⟨_, rfl⟩
      have hvalue : (n : ℚ) * 10 ^ (-p : ℤ) = n / 10 ^ (308 * times) / 10 ^ k := by
        have hp : p = 308 * times + k := by omega
        rw [hp, zpow_neg, zpow_natCast, ← div_eq_mul_inv, div_div, ← pow_add]
      obtain ⟨q, hq, hq0, hround⟩ := (floatNear_shrink hpos hn (by omega : times ≤ 1)).div
        (floatNear_tenTo (by omega : k ≤ 308)) (by norm_num) (by positivity) (by positivity)
        (by rw [div_div, ← pow_add]; exact quotient_le hn _)
      rw [hvalue, ht, hk]
      exact ⟨q, hq, hq0, hround⟩

/-- Short digits and small powers of ten are not rounded, and so only the result is. -/
theorem floatNearest_scale {n : Nat} {exponent : Int} {x : Float} (hn : n < UInt64.size)
    (hshort : Short n) (hexponent : exponent.natAbs ≤ 22) (h : scale? n exponent = some x) :
    FloatNearest (n * 10 ^ exponent) x := by
  have hint := floatNearest_ofNat (le_greatest hn)
  have hsize : absFloat (Float.ofNat n) = n := hint.absValue_eq hshort
  have hten {k : Nat} (hk : k ≤ 22) :
      FloatNearest (10 ^ k : Nat) (Float.ofScientific 1 false k) ∧
        absFloat (Float.ofScientific 1 false k) = 10 ^ k := by
    have hround := floatNearest_tenTo (hk.trans (by norm_num))
    refine ⟨hround, (hround.absValue_eq (short_power hk)).trans ?_⟩
    push_cast
    rfl
  rw [scale?] at h
  simp only at h
  rw [if_neg (by omega)] at h
  split at h
  · rename_i hwhole
    obtain ⟨k, rfl⟩ := Int.eq_ofNat_of_zero_le hwhole
    rw [Int.toNat_natCast] at h
    split at h
    · cases h
    · rename_i hinf
      obtain rfl := Option.some.inj h
      obtain ⟨hround, hpower⟩ := hten (by omega : k ≤ 22)
      rw [zpow_natCast, ← hsize, ← hpower]
      exact floatNearest_mul hint.nonnegative hround.nonnegative (Bool.eq_false_iff.2 hinf)
  · obtain rfl := Option.some.inj h
    obtain ⟨k, rfl⟩ : ∃ k : Nat, exponent = -k := ⟨exponent.natAbs, by omega⟩
    rw [Int.natAbs_neg, Int.natAbs_natCast] at hexponent ⊢
    obtain ⟨hround, hpower⟩ := hten hexponent
    have htimes : (k - 1) / 308 = 0 := by omega
    have hle : (n : ℚ) / 10 ^ k ≤ greatest :=
      (div_le_self (Nat.cast_nonneg n) (one_le_pow₀ (by norm_num))).trans
        (Nat.cast_le.2 (le_greatest hn))
    rw [htimes, shrink, Nat.mul_zero, Nat.sub_zero, zpow_neg, zpow_natCast, ← div_eq_mul_inv,
      ← hsize, ← hpower]
    rw [← hsize, ← hpower] at hle
    exact floatNearest_div hint.nonnegative hround.nonnegative (by rw [hpower]; positivity) hle

/-! ### Reading numbers back -/

section Sign

variable {x : Float} (negative : Bool)

theorem unpack_neg (x : Float) :
    (-x).toModel.unpack = (Float.Model.pack x.toModel.unpack.neg).unpack := rfl

/-- The sign is put last before a number that is read. -/
theorem ofFloat_sign {m : Nat} {e : Int} {hm : 0 < m}
    (hx : x.toModel.unpack = .finite .positive m e hm) :
    BinaryParts.ofFloat (if negative then -x else x) = .finite negative m e := by
  cases negative with
  | false =>
    rw [if_neg Bool.false_ne_true, ofFloat_eq, hx]
    rfl
  | true =>
    obtain ⟨hcanonical, he⟩ := canonical_of_unpack hx
    have hunpack : (-x).toModel.unpack = .finite .negative m e hm := by
      rw [unpack_neg, hx]
      exact unpack_pack hcanonical he .negative hm
    rw [if_pos rfl, ofFloat_eq, hunpack]
    rfl

theorem ofFloat_sign_zero (hx : x.toModel.unpack = .zero .positive) :
    BinaryParts.ofFloat (if negative then -x else x) = .finite negative 0 (-1074) := by
  cases negative with
  | false =>
    rw [if_neg Bool.false_ne_true, ofFloat_eq, hx]
    rfl
  | true =>
    have hunpack : (-x).toModel.unpack = .zero .negative := by
      rw [unpack_neg, hx]
      exact unpack_packedZero
    rw [if_pos rfl, ofFloat_eq, hunpack]
    rfl

theorem exists_ofFloat_sign (h : Nonnegative x.toModel.unpack) :
    ∃ m e, BinaryParts.ofFloat (if negative then -x else x) = .finite negative m e ∧
      absFloat x = m * 2 ^ e := by
  rw [absFloat]
  rcases h.cases with hx | ⟨m, e, hm, hx, -⟩
  · refine ⟨0, -1074, ofFloat_sign_zero negative hx, ?_⟩
    rw [hx, absValue_zero, Nat.cast_zero, zero_mul]
  · refine ⟨m, e, ofFloat_sign negative hx, ?_⟩
    rw [hx, absValue_finite]

end Sign

/-- A number that can be read without rounding anything but the result. -/
def Exact (n : JsonNumber) : Prop := Short n.allDigits ∧ n.places.natAbs ≤ 22

/-- Two finite numbers of the same sign, the second of which is at most eight units in the last
place of the first one away from it. -/
def Beside (x y : Float) : Prop :=
  ∃ negative m e m' e', BinaryParts.ofFloat x = .finite negative m e ∧
    BinaryParts.ofFloat y = .finite negative m' e' ∧
    |(m' * 2 ^ e' - m * 2 ^ e : ℚ)| ≤ 8 * 2 ^ e

theorem Beside.refl {x : Float} {negative : Bool} {m : Nat} {e : Int}
    (h : BinaryParts.ofFloat x = .finite negative m e) : Beside x x := by
  refine ⟨_, _, _, _, _, h, h, ?_⟩
  rw [sub_self, abs_zero]
  positivity

/-- What is written for a number that is not zero is read as one beside it. -/
theorem float?_ofDecimal {x y : Float} {negative : Bool} {m : Nat} {e : Int} (hm : 0 < m)
    (hx : BinaryParts.ofFloat x = .finite negative m e)
    (hy : (ofDecimal negative (Decimal.shortest .even m e)).float? = some y) :
    Beside x y ∧ ((ofDecimal negative (Decimal.shortest .even m e)).Exact → y = x) := by
  have hcanonical := canonical_of_ofFloat hx
  obtain ⟨hsmall, hplaces⟩ := Decimal.shortest_small .even hm hcanonical
  have hcell := Decimal.contains_shortest .even hm e
  have hsignificand := Decimal.significand_shortest_pos .even e hm
  generalize Decimal.shortest .even m e = d at *
  have hpos := allDigits_ofDecimal_pos negative hsignificand
  have hdigits := allDigits_ofDecimal_lt negative (hsmall.trans (by decide))
  have hfew := le_places_ofDecimal negative hplaces
  rw [← value_ofDecimal negative d] at hcell
  rw [float?_eq hdigits, negative_ofDecimal] at hy
  generalize ofDecimal negative d = n at *
  obtain ⟨z, hz, rfl⟩ := Option.map_eq_some_iff.1 hy
  constructor
  · obtain ⟨q, hq, hq0, hround⟩ := near_scale hpos hdigits (by omega) hz
    obtain ⟨m', e', hread, hsize⟩ := exists_ofFloat_sign negative hround.nonnegative
    refine ⟨negative, m, e, m', e', hx, hread, ?_⟩
    rw [← hsize]
    exact hround.error_le hm hcanonical hcell hq hq0
  · intro hexact
    have hround := floatNearest_scale hdigits hexact.1 hexact.2 hz
    exact eq_of_ofFloat_eq (ofFloat_sign negative (hround.eq_of_contains hm hcanonical hcell)) hx

/-- What is written for a number. -/
theorem ofFloat?_cases {x : Float} {n : JsonNumber} (h : ofFloat? x = some n) :
    ∃ negative m e, BinaryParts.ofFloat x = .finite negative m e ∧ n.negative = negative ∧
      (m = 0 ∧ e = -1074 ∧ n = ⟨negative, ['0'], some ['0'], none⟩ ∨
        0 < m ∧ n = ofDecimal negative (Decimal.shortest .even m e)) := by
  rw [ofFloat?] at h
  split at h
  · cases h
  · cases h
  · rename_i negative m e hx
    refine ⟨negative, m, e, hx, ?_⟩
    split at h
    · rename_i hm
      subst hm
      obtain rfl := Option.some.inj h
      exact ⟨rfl, .inl ⟨rfl, (canonical_of_ofFloat hx).full.resolve_left (by norm_num), rfl⟩⟩
    · rename_i hm
      obtain rfl := Option.some.inj h
      exact ⟨negative_ofDecimal _ _, .inr ⟨Nat.pos_of_ne_zero hm, rfl⟩⟩

/-- What is written for a number is written for no other one. -/
theorem ofFloat?_inj {x y : Float} {n : JsonNumber} (hx : ofFloat? x = some n)
    (hy : ofFloat? y = some n) : x = y := by
  obtain ⟨negative, m, e, hpartsx, rfl, hwrittenx⟩ := ofFloat?_cases hx
  obtain ⟨negative', m', e', hpartsy, hsign, hwritteny⟩ := ofFloat?_cases hy
  subst hsign
  have hzero : n = ⟨n.negative, ['0'], some ['0'], none⟩ → n.allDigits = 0 := fun h => by
    rw [h]
    rfl
  have hpos {m : Nat} {e : Int} (hm : 0 < m)
      (h : n = ofDecimal n.negative (Decimal.shortest .even m e)) : n.allDigits ≠ 0 := by
    rw [h]
    exact (allDigits_ofDecimal_pos _ (Decimal.significand_shortest_pos .even e hm)).ne'
  obtain ⟨rfl, rfl, hn⟩ | ⟨hm, hn⟩ := hwrittenx <;>
    obtain ⟨rfl, rfl, hn'⟩ | ⟨hm', hn'⟩ := hwritteny
  · exact eq_of_ofFloat_eq hpartsx hpartsy
  · exact absurd (hzero hn) (hpos hm' hn')
  · exact absurd (hzero hn') (hpos hm hn)
  · have hvalue := value_ofDecimal n.negative (Decimal.shortest .even m e)
    rw [← hn, hn', value_ofDecimal] at hvalue
    have hcell := Decimal.contains_shortest .even hm e
    rw [← hvalue] at hcell
    obtain ⟨rfl, rfl⟩ := Cell.contains_ofBinary_unique hm hm' (canonical_of_ofFloat hpartsx)
      (canonical_of_ofFloat hpartsy) hcell (Decimal.contains_shortest .even hm' e')
    exact eq_of_ofFloat_eq hpartsx hpartsy

/-- **What is written for a finite number is read as one beside it**, and as the number itself if
its digits are few. -/
theorem float?_of_ofFloat? {x y : Float} {n : JsonNumber} (hn : ofFloat? x = some n)
    (hy : n.float? = some y) : Beside x y ∧ (n.Exact → y = x) := by
  obtain ⟨negative, m, e, hx, -, ⟨rfl, rfl, rfl⟩ | ⟨hm, rfl⟩⟩ := ofFloat?_cases hn
  · obtain rfl := Option.some.inj ((float?_zero negative).symm.trans hy)
    have hsame : (if negative then -0 else 0 : Float) = x :=
      eq_of_ofFloat_eq (ofFloat_sign_zero negative rfl) hx
    rw [hsame]
    exact ⟨.refl hx, fun _ => rfl⟩
  · exact float?_ofDecimal hm hx hy

end JsonNumber

end Scriptlet
