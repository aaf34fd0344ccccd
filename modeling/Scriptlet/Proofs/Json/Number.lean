import Mathlib
import Scriptlet.Proofs.Decimal.Nearest
import Scriptlet.Proofs.Decimal.Positional
import Scriptlet.Proofs.Json.Text

/-!
# Numbers of JSON that are made from binary ones

What is written for a finite number is a number of JSON, and its digits and its exponent stand for
the shortest decimal of that number. When it is read the answer may differ in its last bits, since
the reader rounds the digits, and scales them by a power of ten that was rounded too. But the answer
exists: all digits fit into 64 bits, and so all that could fail is that the product gets too large.
There is room enough for it, if only just.

The room gets narrow among the numbers of the largest exponent, whose decimals have an exponent of
at least 292. With powers of ten that large it is checked that both factors can be rounded up and
their product still is in range. For the greatest number of all it depends on how the three
roundings come out, and is computed.

## Main definitions

* `JsonNumber.allDigits`, `JsonNumber.places` — the digits of a number and how they are scaled
* `JsonNumber.headroom` — how much can be scaled by a power of ten

## Main results

* `JsonNumber.proper_ofFloat?` — what is written for a number can be read back digit by digit
* `JsonNumber.float?_eq` — digits that fit into 64 bits are all scaled
* `JsonNumber.value_ofDecimal` — what is written for a decimal stands for it
* `JsonNumber.scale?_isSome` — up to the headroom scaling does not fail
* `JsonNumber.exists_float?_of_isFinite` — what is written for a finite number is read as a number
-/

namespace Scriptlet

open Binary

namespace JsonNumber

variable {d : Decimal} (negative : Bool)

theorem proper_ofDecimal (h : 0 < d.significand) : (ofDecimal negative d).Proper := by
  have hdigits : IsDigits d.digits := isDigits_natDigits _
  have hhead : d.digits.head? ≠ some '0' := head?_natDigits h
  have hpos : 0 < d.digits.length := List.length_pos_of_ne_nil hdigits.1
  have hpoint : d.point = d.digits.length + d.exponent := rfl
  rw [ofDecimal]
  simp only
  split
  · -- one digit before the point
    refine ⟨hdigits.take one_pos, fun hlen => ?_, fun ds hds => ?_, fun e he => ?_⟩
    · simp only [List.length_take] at hlen
      omega
    · simp only at hds
      split at hds
      · cases hds
      · obtain rfl := Option.some.inj hds
        exact hdigits.drop (by omega)
    · obtain rfl := Option.some.inj he
      exact isDigits_natDigits _
  · split
    · -- no digit behind the point
      refine ⟨hdigits.append fun e he => ?_, fun _ => ?_, fun ds hds => ?_, nofun⟩
      · obtain rfl := List.eq_of_mem_replicate he
        rfl
      · rwa [List.head?_append_of_ne_nil _ hdigits.1]
      · exact Option.some.inj hds ▸ isDigits_zero
    · split
      · -- the point is among the digits
        refine ⟨hdigits.take (by omega), fun _ => ?_, fun ds hds => ?_, nofun⟩
        · rwa [List.head?_take, if_neg (by omega)]
        · obtain rfl := Option.some.inj hds
          exact hdigits.drop (by omega)
      · -- zeros stand behind the point first
        refine ⟨isDigits_zero, fun hlen => absurd hlen (Nat.lt_irrefl 1), fun ds hds => ?_, nofun⟩
        obtain rfl := Option.some.inj hds
        exact hdigits.zeros_append _

theorem proper_ofFloat? {x : Float} {n : JsonNumber} (h : ofFloat? x = some n) : n.Proper := by
  rw [ofFloat?] at h
  split at h
  · cases h
  · cases h
  · split at h
    · obtain rfl := Option.some.inj h
      exact ⟨isDigits_zero, fun hlen => absurd hlen (Nat.lt_irrefl 1),
        fun ds hds => Option.some.inj hds ▸ isDigits_zero, nofun⟩
    · rename_i hmantissa
      obtain rfl := Option.some.inj h
      exact proper_ofDecimal _ (Decimal.significand_shortest_pos _ _ (Nat.pos_of_ne_zero hmantissa))

/-! ### Collecting digits -/

/-- What a row of digits stands for behind the digits of `n`. -/
def collect (n : Nat) (ds : List Char) : Nat := ds.foldl (fun n c => 10 * n + digitValue c) n

theorem collect_append (n : Nat) (ds es : List Char) :
    collect n (ds ++ es) = collect (collect n ds) es := List.foldl_append

theorem le_collect (n : Nat) (ds : List Char) : n * 10 ^ ds.length ≤ collect n ds := by
  induction ds generalizing n with
  | nil => simp [collect]
  | cons d ds ih =>
    calc n * 10 ^ (d :: ds).length = 10 * n * 10 ^ ds.length := by
          rw [List.length_cons, Nat.pow_succ]
          ring
      _ ≤ (10 * n + digitValue d) * 10 ^ ds.length := by gcongr; omega
      _ ≤ collect n (d :: ds) := ih _

/-- If all digits fit into 64 bits then all are collected. -/
theorem appendDigits_eq {n : Nat} {ds : List Char} (h : collect n ds < UInt64.size) :
    appendDigits n ds = (collect n ds, []) := by
  induction ds generalizing n with
  | nil => rfl
  | cons d ds ih =>
    have hnext : 10 * n + digitValue d < UInt64.size := by
      refine Nat.lt_of_le_of_lt ?_ h
      exact (Nat.le_mul_of_pos_right _ (by positivity)).trans (le_collect _ ds)
    rw [appendDigits, if_pos hnext]
    exact ih h

theorem collect_lt (n : Nat) {ds : List Char} (hd : ∀ d ∈ ds, d.isDigit) :
    collect n ds < (n + 1) * 10 ^ ds.length := by
  induction ds generalizing n with
  | nil => simp [collect]
  | cons d ds ih =>
    rw [List.forall_mem_cons] at hd
    have hdigit := digitValue_lt hd.1
    calc collect n (d :: ds) < (10 * n + digitValue d + 1) * 10 ^ ds.length := ih _ hd.2
      _ ≤ (10 * (n + 1)) * 10 ^ ds.length := by gcongr; omega
      _ = (n + 1) * 10 ^ (d :: ds).length := by rw [List.length_cons, Nat.pow_succ]; ring

/-! ### Digits and places -/

/-- What the exponent says. -/
def power (n : JsonNumber) : Int :=
  match n.exponent with
  | some (true, ds) => -(digitsValue ds : Int)
  | some (false, ds) => digitsValue ds
  | none => 0

/-- All digits of a number, as one number. -/
def allDigits (n : JsonNumber) : Nat := digitsValue (n.whole ++ n.fraction.getD [])

/-- The power of ten that they are scaled by. -/
def places (n : JsonNumber) : Int := n.power - (n.fraction.getD []).length

/-- A number whose digits fit into 64 bits is read by scaling them all. -/
theorem float?_eq {n : JsonNumber} (h : n.allDigits < UInt64.size) :
    n.float? =
      (scale? n.allDigits n.places).map fun x => if n.negative then -x else x := by
  have hall : n.allDigits = collect (collect 0 n.whole) (n.fraction.getD []) :=
    collect_append 0 _ _
  have hwhole : collect 0 n.whole < UInt64.size := by
    rw [hall] at h
    exact ((Nat.le_mul_of_pos_right _ (by positivity)).trans (le_collect _ _)).trans_lt h
  have hplaces : ((0 : Nat) - ((n.fraction.getD []).length - 0 : Nat) + n.power : Int) =
      n.places := by
    rw [places]
    omega
  rw [float?, appendDigits_eq hwhole]
  simp only
  rw [appendDigits_eq (hall ▸ h), ← hall, ← hplaces]
  rfl

/-- A decimal as it is written with an exponent. -/
def scientific (negative : Bool) (d : Decimal) : JsonNumber :=
  ⟨negative, d.digits.take 1, if d.digits.length ≤ 1 then none else some (d.digits.drop 1),
    some (decide (d.point - 1 < 0), natDigits (d.point - 1).natAbs)⟩

theorem power_scientific (d : Decimal) : (scientific negative d).power = d.point - 1 := by
  rw [power, scientific]
  rcases lt_or_ge (d.point - 1) 0 with hneg | hpos
  · rw [decide_eq_true hneg]
    show -((digitsValue (natDigits (d.point - 1).natAbs) : Nat) : Int) = _
    rw [digitsValue_natDigits]
    omega
  · rw [decide_eq_false hpos.not_gt]
    show ((digitsValue (natDigits (d.point - 1).natAbs) : Nat) : Int) = _
    rw [digitsValue_natDigits]
    omega

theorem fraction_scientific {d : Decimal} {c : Char} {cs : List Char} (h : d.digits = c :: cs) :
    (scientific negative d).fraction.getD [] = cs := by
  rw [scientific, h]
  cases cs <;> rfl

theorem allDigits_scientific (d : Decimal) :
    (scientific negative d).allDigits = d.significand ∧
      (scientific negative d).places = d.exponent := by
  have hdigits : IsDigits d.digits := isDigits_natDigits _
  have hpoint : d.point = d.digits.length + d.exponent := rfl
  have hvalue : digitsValue d.digits = d.significand := digitsValue_natDigits _
  obtain ⟨c, cs, hcs⟩ := List.exists_cons_of_ne_nil hdigits.1
  have hwhole : (scientific negative d).whole = [c] := by rw [scientific, hcs]; rfl
  rw [allDigits, places, fraction_scientific negative hcs, hwhole, power_scientific, hpoint]
  rw [hcs] at hvalue ⊢
  rw [List.length_cons]
  exact ⟨hvalue, by omega⟩

/-- What is written for a decimal: its digits and its exponent, or an integer and one more zero
behind the point. -/
theorem allDigits_ofDecimal (d : Decimal) :
    ((ofDecimal negative d).allDigits = d.significand ∧
        (ofDecimal negative d).places = d.exponent) ∨
      (0 ≤ d.exponent ∧ d.point ≤ 16 ∧
        (ofDecimal negative d).allDigits = d.significand * 10 ^ (d.exponent.toNat + 1) ∧
        (ofDecimal negative d).places = -1) := by
  have hvalue : digitsValue d.digits = d.significand := digitsValue_natDigits _
  have hpoint : d.point = d.digits.length + d.exponent := rfl
  generalize hn : ofDecimal negative d = n
  rw [ofDecimal] at hn
  simp only at hn
  split at hn
  · subst hn
    exact .inl (allDigits_scientific negative d)
  · rename_i hsmall
    split at hn
    · rename_i hwhole
      subst hn
      refine .inr ⟨hwhole, by omega, ?_, rfl⟩
      show digitsValue (d.digits ++ Decimal.zeros d.exponent.toNat ++ Decimal.zeros 1) = _
      rw [digitsValue_append_zeros, digitsValue_append_zeros, hvalue, Nat.mul_assoc, ← Nat.pow_add]
    · split at hn
      · subst hn
        refine .inl ⟨?_, ?_⟩
        · show digitsValue (d.digits.take d.point.toNat ++ d.digits.drop d.point.toNat) = _
          rw [List.take_append_drop, hvalue]
        · show (0 : Int) - (d.digits.drop d.point.toNat).length = d.exponent
          rw [List.length_drop]
          omega
      · subst hn
        refine .inl ⟨?_, ?_⟩
        · show digitsValue (Decimal.zeros 1 ++ (Decimal.zeros (-d.point).toNat ++ d.digits)) = _
          rw [digitsValue_zeros_append, digitsValue_zeros_append, hvalue]
        · show (0 : Int) - (Decimal.zeros (-d.point).toNat ++ d.digits).length = d.exponent
          rw [List.length_append, Decimal.zeros, List.length_replicate]
          omega

/-- What is written for a decimal stands for it. -/
theorem value_ofDecimal (d : Decimal) :
    ((ofDecimal negative d).allDigits : ℚ) * 10 ^ (ofDecimal negative d).places = d.value := by
  rw [Decimal.value]
  obtain ⟨hdigits, hplaces⟩ | ⟨hwhole, -, hdigits, hplaces⟩ := allDigits_ofDecimal negative d
  · rw [hdigits, hplaces]
  · obtain ⟨k, hk⟩ := Int.eq_ofNat_of_zero_le hwhole
    rw [hdigits, hplaces, hk, Int.toNat_natCast, zpow_natCast, pow_succ, zpow_neg_one]
    push_cast
    field_simp

/-- All digits that are written for a decimal can be collected, if its own can be. -/
theorem allDigits_ofDecimal_lt (hd : d.significand < UInt64.size) :
    (ofDecimal negative d).allDigits < UInt64.size := by
  obtain ⟨hdigits, -⟩ | ⟨hwhole, hpoint, hdigits, -⟩ := allDigits_ofDecimal negative d
  · rwa [hdigits]
  · have hpoint' : d.point = d.digits.length + d.exponent := rfl
    have hless : d.significand < 10 ^ d.digits.length := by
      have hvalue : digitsValue d.digits = d.significand := digitsValue_natDigits _
      have hcollect := collect_lt 0 (isDigits_natDigits d.significand).2
      rw [Nat.zero_add, Nat.one_mul] at hcollect
      rw [← hvalue]
      exact hcollect
    rw [hdigits]
    calc d.significand * 10 ^ (d.exponent.toNat + 1)
        < 10 ^ d.digits.length * 10 ^ (d.exponent.toNat + 1) :=
          Nat.mul_lt_mul_of_pos_right hless (by positivity)
      _ = 10 ^ (d.digits.length + (d.exponent.toNat + 1)) := (Nat.pow_add _ _ _).symm
      _ ≤ 10 ^ 17 := Nat.pow_le_pow_right (by norm_num) (by omega)
      _ < UInt64.size := by decide

theorem allDigits_ofDecimal_pos (hd : 0 < d.significand) :
    0 < (ofDecimal negative d).allDigits := by
  obtain ⟨hdigits, -⟩ | ⟨-, -, hdigits, -⟩ := allDigits_ofDecimal negative d
  · rwa [hdigits]
  · rw [hdigits]
    positivity

theorem le_places_ofDecimal (hd : -324 ≤ d.exponent) : -324 ≤ (ofDecimal negative d).places := by
  obtain ⟨-, hplaces⟩ | ⟨-, -, -, hplaces⟩ := allDigits_ofDecimal negative d <;> omega

theorem negative_ofDecimal (negative : Bool) (d : Decimal) :
    (ofDecimal negative d).negative = negative := by
  rw [ofDecimal]
  simp only
  split_ifs <;> rfl

/-! ### Scaling -/

/-- What decimals that are scaled by a power of ten do not pass. With a power below the 292nd they
do not get beyond half of the range. -/
def limit (exponent : Nat) : Nat := if exponent < 292 then 2 ^ 1023 else 2 ^ 1024 - 3 * 2 ^ 970

/-- A bound on what can be scaled by a power of ten and stays finite. -/
def headroom (exponent : Nat) : Nat := limit exponent / 10 ^ exponent

/-- The next number that is short. -/
def roundUp (n : Nat) : Nat :=
  (n + 2 ^ (n.log2 - 52) - 1) / 2 ^ (n.log2 - 52) * 2 ^ (n.log2 - 52)

theorem le_roundUp (n : Nat) : n ≤ roundUp n := by
  have hpos := Nat.two_pow_pos (n.log2 - 52)
  have := Nat.div_add_mod (n + 2 ^ (n.log2 - 52) - 1) (2 ^ (n.log2 - 52))
  have := Nat.mod_lt (n + 2 ^ (n.log2 - 52) - 1) hpos
  rw [roundUp, Nat.mul_comm]
  omega

theorem short_roundUp (n : Nat) : Short (roundUp n) := by
  refine ⟨_, _, Nat.le_of_lt_succ (Nat.div_lt_of_lt_mul ?_), rfl⟩
  have hn : n < 2 ^ (n.log2 - 52) * 2 ^ 53 := by
    rw [← Nat.pow_add]
    exact Nat.lt_of_lt_of_le Nat.lt_log2_self (Nat.pow_le_pow_right (by norm_num) (by omega))
  have hpos := Nat.two_pow_pos (n.log2 - 52)
  rw [Nat.mul_succ]
  omega

/-- A product is in range if short bounds on its factors are, and their product is. -/
theorem scale?_isSome_of_le {n exponent a b : Nat} (ha : Short a) (hb : Short b) (hn : n ≤ a)
    (hten : 10 ^ exponent ≤ b) (hproduct : a * b ≤ greatest) (hexponent : exponent ≤ 308) :
    (scale? n exponent).isSome := by
  have hpos : 0 < b := Nat.lt_of_lt_of_le (Nat.pow_pos (by norm_num)) hten
  have hx := floatNearest_ofNat (hn.trans ((Nat.le_mul_of_pos_right _ hpos).trans hproduct))
  have hy := floatNearest_tenTo hexponent
  have hxa : absFloat (Float.ofNat n) ≤ a := hx.absValue_le ha (Nat.cast_le.2 hn)
  have hyb : absFloat (Float.ofScientific 1 false exponent) ≤ b :=
    hy.absValue_le hb (Nat.cast_le.2 hten)
  have hle : absFloat (Float.ofNat n) * absFloat (Float.ofScientific 1 false exponent) ≤
      greatest := by
    refine (mul_le_mul hxa hyb hy.nonnegative.absValue_nonneg (Nat.cast_nonneg a)).trans ?_
    rw [← Nat.cast_mul]
    exact Nat.cast_le.2 hproduct
  rw [scale?, if_neg (by omega), if_pos (by omega), Int.toNat_natCast]
  simp only [isInf_mul hx.nonnegative hy.nonnegative hle]
  rfl

/-- Where the room gets narrow it is enough, even if both factors are rounded up before the product
is. -/
theorem roundUp_headroom : ∀ i : Fin 23,
    roundUp (min (headroom (286 + i)) (UInt64.size - 1)) * roundUp (10 ^ (286 + i.val)) ≤
      greatest := by
  decide +kernel

/-- Up to the headroom scaling does not fail. -/
theorem scale?_isSome {n : Nat} {exponent : Int} (hn : n < UInt64.size)
    (h : 0 ≤ exponent → exponent ≤ 308 ∧ n ≤ headroom exponent.toNat) :
    (scale? n exponent).isSome := by
  rcases lt_or_ge exponent 0 with hneg | hpos
  · rw [scale?, if_neg (by omega), if_neg (by omega)]
    rfl
  · obtain ⟨hexponent, hroom⟩ := h hpos
    obtain ⟨e, rfl⟩ := Int.eq_ofNat_of_zero_le hpos
    rw [Int.toNat_natCast] at hroom
    rcases Nat.lt_or_ge 285 e with hlarge | hsmall
    · obtain ⟨i, rfl⟩ := Nat.exists_eq_add_of_lt hlarge
      have hproduct := roundUp_headroom ⟨i, by omega⟩
      have hindex : 285 + i + 1 = 286 + i := by omega
      rw [hindex] at hroom hexponent ⊢
      exact scale?_isSome_of_le (short_roundUp _) (short_roundUp _)
        ((Nat.le_min.2 ⟨hroom, Nat.le_sub_one_of_lt hn⟩).trans (le_roundUp _)) (le_roundUp _)
        hproduct (by omega)
    · -- three digits need ten bits
      obtain ⟨k, hk, hk95⟩ : ∃ k, e ≤ 3 * k ∧ k ≤ 95 := ⟨(e + 2) / 3, by omega, by omega⟩
      have hten : 10 ^ e ≤ 2 ^ (10 * k) := by
        calc 10 ^ e ≤ 10 ^ (3 * k) := Nat.pow_le_pow_right (by norm_num) hk
          _ = (10 ^ 3) ^ k := Nat.pow_mul _ _ _
          _ ≤ (2 ^ 10) ^ k := Nat.pow_le_pow_left (by norm_num) k
          _ = 2 ^ (10 * k) := (Nat.pow_mul _ _ _).symm
      have hproduct : 2 ^ 64 * 2 ^ (10 * k) ≤ greatest := by
        rw [← Nat.pow_add]
        exact two_pow_le_greatest (by omega)
      exact scale?_isSome_of_le ⟨1, 64, by norm_num, (Nat.one_mul _).symm⟩
        ⟨1, 10 * k, by norm_num, (Nat.one_mul _).symm⟩ hn.le hten hproduct (by omega)

/-! ### Reading -/

/-- A shortest decimal without places behind the point, and without the fraction of its cell. -/
theorem scaled_le_high {tie : Tie} {mantissa : Nat} {q : Int}
    (hpos : 0 ≤ (Decimal.shortest tie mantissa q).exponent) :
    (Decimal.shortest tie mantissa q).significand *
        10 ^ (Decimal.shortest tie mantissa q).exponent.toNat * 2 ^ (2 - q).toNat ≤
      (4 * mantissa + 2) * 2 ^ (q - 2).toNat := by
  have hle := Decimal.shortest_le_high tie q mantissa
  generalize Decimal.shortest tie mantissa q = d at hpos hle ⊢
  have hzero : (-d.exponent).toNat = 0 := by omega
  rw [Cell.unit, Cell.finer, tenTo_eq, tenTo_eq, Cell.denominator_ofBinary, Cell.high_ofBinary,
    hzero, Nat.pow_zero, Nat.mul_one] at hle
  calc d.significand * 10 ^ d.exponent.toNat * 2 ^ (2 - q).toNat
      = d.significand * (2 ^ (2 - q).toNat * 10 ^ d.exponent.toNat) := by ring
    _ ≤ (4 * mantissa + 2) * 2 ^ (q - 2).toNat := hle

/-- The larger limit is beyond half of the range, and no decimal of the largest exponent passes it
but that of the greatest number. -/
theorem larger_limit : 2 ^ 1023 ≤ 2 ^ 1024 - 3 * 2 ^ 970 ∧ 2 ^ 1024 - 3 * 2 ^ 970 < 10 ^ 309 ∧
    (4 * (2 ^ 53 - 2) + 2) * 2 ^ 969 ≤ 2 ^ 1024 - 3 * 2 ^ 970 := by
  decide +kernel

theorem two_pow_le_limit {k : Nat} (hk : k ≤ 1023) (exponent : Nat) : 2 ^ k ≤ limit exponent := by
  have hpow : 2 ^ k ≤ 2 ^ 1023 := pow_le_pow_right₀ one_le_two hk
  rw [limit]
  split
  · exact hpow
  · exact hpow.trans larger_limit.1

theorem le_of_pow_le_limit {exponent : Nat} (h : 10 ^ exponent ≤ limit exponent) :
    exponent ≤ 308 := by
  by_contra hlarge
  have hlimit : limit exponent = 2 ^ 1024 - 3 * 2 ^ 970 := if_neg (by omega)
  rw [hlimit] at h
  have hpow : 10 ^ 309 ≤ 10 ^ exponent := pow_le_pow_right₀ (by norm_num) (by omega)
  exact absurd (hpow.trans h) larger_limit.2.1.not_ge

/-- Shortest decimals stay below the limit, but for that of the greatest number. -/
theorem scaled_le_limit {tie : Tie} {mantissa : Nat} {q : Int} (h : Canonical mantissa q)
    (hq : q ≤ 971) (hgreatest : ¬ (mantissa = 2 ^ 53 - 1 ∧ q = 971))
    (hpos : 0 ≤ (Decimal.shortest tie mantissa q).exponent) :
    (Decimal.shortest tie mantissa q).significand *
        10 ^ (Decimal.shortest tie mantissa q).exponent.toNat ≤
      limit (Decimal.shortest tie mantissa q).exponent.toNat := by
  have hscaled := scaled_le_high hpos
  have hmantissa := h.mantissa
  rcases hq.eq_or_lt with rfl | hq
  · have hfull : 2 ^ 52 ≤ mantissa := h.full.resolve_right (by norm_num)
    have hexponent := Decimal.le_exponent_shortest tie (by omega : 0 < mantissa)
    have hzero : ((2 : Int) - 971).toNat = 0 := by decide
    have hscale : ((971 : Int) - 2).toNat = 969 := by decide
    rw [hzero, hscale, Nat.pow_zero, Nat.mul_one] at hscaled
    rw [limit, if_neg (by omega)]
    calc _ ≤ (4 * mantissa + 2) * 2 ^ 969 := hscaled
      _ ≤ (4 * (2 ^ 53 - 2) + 2) * 2 ^ 969 := Nat.mul_le_mul_right _ (by omega)
      _ ≤ 2 ^ 1024 - 3 * 2 ^ 970 := larger_limit.2.2
  · obtain ⟨k, hk⟩ : ∃ k, k = (q - 2).toNat := ⟨_, rfl⟩
    rw [← hk] at hscaled
    refine le_trans ?_ (two_pow_le_limit (by omega : 55 + k ≤ 1023) _)
    calc _ ≤ _ * 2 ^ (2 - q).toNat := Nat.le_mul_of_pos_right _ (Nat.two_pow_pos _)
      _ ≤ (4 * mantissa + 2) * 2 ^ k := hscaled
      _ ≤ 2 ^ 55 * 2 ^ k := Nat.mul_le_mul_right _ (by omega)
      _ = 2 ^ (55 + k) := (Nat.pow_add _ _ _).symm

/-- What is written for a shortest decimal stays in range, but for that of the greatest number. -/
theorem isSome_float?_ofDecimal {tie : Tie} {mantissa : Nat} {q : Int} (hm : 0 < mantissa)
    (h : Canonical mantissa q) (hq : q ≤ 971) (hgreatest : ¬ (mantissa = 2 ^ 53 - 1 ∧ q = 971)) :
    (ofDecimal negative (Decimal.shortest tie mantissa q)).float?.isSome := by
  have hlimit := @scaled_le_limit tie _ _ h hq hgreatest
  have hsmall := (Decimal.shortest_small tie hm h).1
  have hpos := Decimal.significand_shortest_pos tie q hm
  generalize Decimal.shortest tie mantissa q = d at *
  have hdigits := allDigits_ofDecimal_lt negative (hsmall.trans (by decide))
  rw [float?_eq hdigits, Option.isSome_map]
  refine scale?_isSome hdigits fun hplaces => ?_
  obtain ⟨hall, hexponent⟩ | ⟨-, -, -, hexponent⟩ := allDigits_ofDecimal negative d
  · rw [hexponent] at hplaces ⊢
    have hle := hlimit hplaces
    have hexponent := le_of_pow_le_limit ((Nat.le_mul_of_pos_left _ hpos).trans hle)
    rw [hall]
    exact ⟨by omega, (Nat.le_div_iff_mul_le (Nat.pow_pos (by norm_num))).2 hle⟩
  · omega

/-- There is no such room for the greatest number, whose decimal just happens to stay in range. -/
theorem isSome_float?_greatest : ∀ negative,
    (ofDecimal negative (Decimal.shortest .even (2 ^ 53 - 1) 971)).float?.isSome := by
  decide +kernel

theorem float?_zero : ∀ negative, (JsonNumber.mk negative ['0'] (some ['0']) none).float? =
    some (if negative then -0 else 0)
  | true => rfl
  | false => rfl

/-- **Finite numbers are written as numbers that can be read.** What is written for a number stays
in range when it is read, however its last digits come out. -/
theorem exists_float?_of_isFinite {x : Float} (hx : x.isFinite) :
    ∃ n y, ofFloat? x = some n ∧ n.float? = some y := by
  have hparts := ofFloat_eq x
  have hunpack : x.toModel.unpack.isFinite := hx
  rw [ofFloat?, hparts]
  cases hu : x.toModel.unpack with
  | notANumber | infinity => rw [hu] at hunpack; cases hunpack
  | zero sign => exact ⟨_, _, rfl, float?_zero _⟩
  | finite sign m e hm =>
    obtain ⟨hcanonical, he⟩ := canonical_of_unpack hu
    refine ⟨_, _, if_neg hm.ne', (Option.some_get ?_).symm⟩
    by_cases hgreatest : m = 2 ^ 53 - 1 ∧ e = 971
    · obtain ⟨rfl, rfl⟩ := hgreatest
      exact isSome_float?_greatest _
    · exact isSome_float?_ofDecimal _ hm hcanonical he hgreatest

/-- What is not finite is not written as a number. -/
theorem ofFloat?_eq_none {x : Float} (hx : x.isFinite = false) : ofFloat? x = none := by
  have hunpack : x.toModel.unpack.isFinite = false := hx
  rw [ofFloat?, ofFloat_eq x]
  cases hu : x.toModel.unpack with
  | notANumber | infinity => rfl
  | zero | finite => rw [hu] at hunpack; cases hunpack

end JsonNumber

end Scriptlet
