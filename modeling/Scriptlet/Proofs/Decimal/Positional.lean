import Scriptlet.Decimal.Positional
import Scriptlet.Proofs.Decimal.Cell
import Scriptlet.Proofs.Decimal.Digits

/-!
# Texts of numbers

The text of a finite number is a row of digits with at most one point, perhaps behind a minus sign.
It says which number it is: the digits and the place of the point give back the decimal, and no
other number has that decimal in its cell.

## Main definitions

* `positionalValue` — the number that digits and a point stand for
* `IsMagnitude` — digits with at most one point, the first of them a digit

## Main results

* `positionalValue_positional` — a decimal that is written out can be read off again
* `exists_numberText` — how finite numbers are written
* `numberText_inj` — finite numbers with the same text are the same
-/

namespace Scriptlet

/-! ### Reading off a decimal -/

/-- The number that digits and a point stand for. -/
def positionalValue (cs : List Char) : ℚ :=
  digitsValue (cs.filter Char.isDigit) / 10 ^ (cs.dropWhile (· ≠ '.')).tail.length

/-- A row of digits, the first of which stands there, with at most one point behind it. -/
inductive IsMagnitude : List Char → Prop
  | whole {ds} (hd : IsDigits ds) : IsMagnitude ds
  | point {ds es} (hd : IsDigits ds) (he : ∀ e ∈ es, e.isDigit) : IsMagnitude (ds ++ '.' :: es)

section

variable {ds es : List Char}

theorem filter_digits (h : ∀ d ∈ ds, d.isDigit) : ds.filter Char.isDigit = ds :=
  List.filter_eq_self.2 h

theorem ne_point_of_digits (h : ∀ d ∈ ds, d.isDigit) : ∀ d ∈ ds, decide (d ≠ '.') = true := by
  intro d hd
  rw [decide_eq_true_eq]
  rintro rfl
  exact absurd (h _ hd) (by decide)

theorem positionalValue_whole (h : ∀ d ∈ ds, d.isDigit) : positionalValue ds = digitsValue ds := by
  rw [positionalValue, filter_digits h, List.dropWhile_eq_nil_iff.2 (ne_point_of_digits h),
    List.tail_nil, List.length_nil, pow_zero, div_one]

theorem positionalValue_point (hd : ∀ d ∈ ds, d.isDigit) (he : ∀ e ∈ es, e.isDigit) :
    positionalValue (ds ++ '.' :: es) = digitsValue (ds ++ es) / 10 ^ es.length := by
  have hpoint : ('.' :: es).filter Char.isDigit = es := by
    rw [List.filter_cons_of_neg (by decide), filter_digits he]
  rw [positionalValue, List.filter_append, filter_digits hd, hpoint,
    List.dropWhile_append_of_pos (ne_point_of_digits hd), List.dropWhile_cons_of_neg (by decide),
    List.tail_cons]

end

theorem digitsValue_append_zeros (ds : List Char) (n : Nat) :
    digitsValue (ds ++ Decimal.zeros n) = digitsValue ds * 10 ^ n := by
  rw [digitsValue_eq, digitsValue_eq, Nat.ofDigitChars_append, Decimal.zeros,
    Nat.ofDigitChars_replicate_zero, Nat.mul_comm]

theorem digitsValue_zeros_append (ds : List Char) (n : Nat) :
    digitsValue (Decimal.zeros n ++ ds) = digitsValue ds := by
  rw [digitsValue_eq, digitsValue_eq, Nat.ofDigitChars_append, Decimal.zeros,
    Nat.ofDigitChars_replicate_zero, Nat.mul_zero]

namespace Decimal

theorem isDigit_of_mem_zeros {n : Nat} : ∀ c ∈ zeros n, c.isDigit := by
  intro c hc
  rw [List.eq_of_mem_replicate hc]
  rfl

/-- **A decimal that is written out can be read off again**, and it has at most one point. -/
theorem positionalValue_positional (d : Decimal) :
    positionalValue d.positional = d.value ∧ IsMagnitude d.positional := by
  have hdigits := isDigits_natDigits d.significand
  have hvalue : digitsValue d.digits = d.significand := digitsValue_natDigits _
  have hpoint : d.point = d.digits.length + d.exponent := rfl
  have hscale (n : Nat) (hn : d.exponent = -(n : Int)) :
      (d.significand : ℚ) / 10 ^ n = d.value := by
    rw [value, hn, zpow_neg, zpow_natCast, div_eq_mul_inv]
  rw [positional]
  split_ifs with hwhole hfirst
  · have hall : ∀ c ∈ d.digits ++ zeros d.exponent.toNat, c.isDigit :=
      List.forall_mem_append.2 ⟨hdigits.2, isDigit_of_mem_zeros⟩
    refine ⟨?_, .whole (hdigits.append isDigit_of_mem_zeros)⟩
    rw [positionalValue_whole hall, digitsValue_append_zeros, hvalue, value]
    obtain ⟨n, hn⟩ := Int.eq_ofNat_of_zero_le hwhole
    rw [hn, Int.toNat_natCast, zpow_natCast]
    push_cast
    rfl
  · have htake : ∀ c ∈ d.digits.take d.point.toNat, c.isDigit := fun c hc =>
      hdigits.2 c (List.mem_of_mem_take hc)
    have hdrop : ∀ c ∈ d.digits.drop d.point.toNat, c.isDigit := fun c hc =>
      hdigits.2 c (List.mem_of_mem_drop hc)
    refine ⟨?_, .point (hdigits.take (by omega)) hdrop⟩
    rw [positionalValue_point htake hdrop, List.take_append_drop, hvalue]
    refine hscale _ ?_
    rw [List.length_drop]
    omega
  · have hzero : ∀ c ∈ ['0'], c.isDigit := by simp
    have hrest : ∀ c ∈ zeros (-d.point).toNat ++ d.digits, c.isDigit :=
      List.forall_mem_append.2 ⟨isDigit_of_mem_zeros, hdigits.2⟩
    have hread := positionalValue_point hzero hrest
    rw [← List.append_assoc, show ['0'] ++ zeros (-d.point).toNat = zeros ((-d.point).toNat + 1)
      from rfl, digitsValue_zeros_append, hvalue] at hread
    refine ⟨hread.trans (hscale _ ?_), @IsMagnitude.point ['0'] _ isDigits_zero hrest⟩
    rw [List.length_append, zeros, List.length_replicate]
    omega

end Decimal

/-! ### Finite numbers -/

open Binary

/-- A number without its sign, written out. -/
def magnitude (m : Nat) (e : Int) : List Char :=
  if m = 0 then ['0'] else (Decimal.shortest .up m e).positional

/-- How finite numbers are written. -/
theorem exists_numberText {x : Float} (hx : x.isFinite) :
    ∃ negative m e, BinaryParts.ofFloat x = .finite negative m e ∧ Canonical m e ∧
      (numberText x).toList = signText negative ++ magnitude m e := by
  obtain ⟨negative, m, e, hparts⟩ := exists_ofFloat hx
  have hcanonical := canonical_of_ofFloat hparts
  refine ⟨negative, m, e, hparts, hcanonical, ?_⟩
  rw [numberText, hparts, magnitude]
  simp only
  split <;> rw [String.toList_ofList]

theorem isMagnitude_magnitude (m : Nat) (e : Int) : IsMagnitude (magnitude m e) := by
  rw [magnitude]
  split
  · exact .whole isDigits_zero
  · exact (Decimal.positionalValue_positional _).2

theorem IsMagnitude.exists_cons {cs : List Char} (h : IsMagnitude cs) :
    ∃ c ds, cs = c :: ds ∧ c.isDigit := by
  obtain ⟨hd⟩ | ⟨hd, -⟩ := h
  · obtain ⟨c, ds, rfl⟩ := List.exists_cons_of_ne_nil hd.1
    exact ⟨c, ds, rfl, hd.2 c List.mem_cons_self⟩
  · rename_i ds es
    obtain ⟨c, ds, rfl⟩ := List.exists_cons_of_ne_nil hd.1
    exact ⟨c, _, rfl, hd.2 c List.mem_cons_self⟩

theorem IsMagnitude.forall_mem {cs : List Char} (h : IsMagnitude cs) :
    ∀ c ∈ cs, c.isDigit ∨ c = '.' := by
  obtain ⟨hd⟩ | ⟨hd, he⟩ := h
  · exact fun c hc => .inl (hd.2 c hc)
  · exact List.forall_mem_append.2 ⟨fun c hc => .inl (hd.2 c hc),
      List.forall_mem_cons.2 ⟨.inr rfl, fun c hc => .inl (he c hc)⟩⟩

/-- The sign of a number can be told from its text. -/
theorem signText_append_inj {negative negative' : Bool} {cs ds : List Char} (hc : IsMagnitude cs)
    (hd : IsMagnitude ds) (h : signText negative ++ cs = signText negative' ++ ds) :
    negative = negative' ∧ cs = ds := by
  have hne : ∀ {cs ds : List Char}, IsMagnitude ds → '-' :: cs ≠ ds := by
    rintro cs _ hd rfl
    obtain ⟨c, ds, hcons, hdigit⟩ := hd.exists_cons
    rw [← (List.cons.inj hcons).1] at hdigit
    exact absurd hdigit (by decide)
  cases negative <;> cases negative'
  · exact ⟨rfl, h⟩
  · exact absurd h.symm (hne hc)
  · exact absurd h (hne hd)
  · exact ⟨rfl, (List.cons.inj h).2⟩

/-- The value of a number without its sign can be told from its text. -/
theorem magnitude_inj {m m' : Nat} {e e' : Int} (h : Canonical m e) (h' : Canonical m' e')
    (htext : magnitude m e = magnitude m' e') : m = m' ∧ e = e' := by
  have hzero : ∀ {e : Int}, Canonical 0 e → e = -1074 := fun h => h.full.resolve_left (by norm_num)
  have hpos : ∀ {m : Nat} (e : Int), m ≠ 0 → 0 < positionalValue (magnitude m e) := by
    intro m e hm
    rw [magnitude, if_neg hm, (Decimal.positionalValue_positional _).1, Decimal.value]
    have := Decimal.significand_shortest_pos .up e (Nat.pos_of_ne_zero hm)
    positivity
  have hnone : ∀ e : Int, positionalValue (magnitude 0 e) = 0 := by
    intro e
    rw [magnitude, if_pos rfl, positionalValue_whole (by simp)]
    rfl
  by_cases hm : m = 0 <;> by_cases hm' : m' = 0
  · subst hm hm'
    exact ⟨rfl, (hzero h).trans (hzero h').symm⟩
  · subst hm
    exact absurd ((hnone e).symm.trans (htext ▸ rfl)) (hpos e' hm').ne
  · subst hm'
    exact absurd ((hnone e').symm.trans (htext ▸ rfl)) (hpos e hm).ne
  · have hvalue := congrArg positionalValue htext
    rw [magnitude, magnitude, if_neg hm, if_neg hm', (Decimal.positionalValue_positional _).1,
      (Decimal.positionalValue_positional _).1] at hvalue
    have hcell := Decimal.contains_shortest .up (Nat.pos_of_ne_zero hm) e
    rw [hvalue] at hcell
    exact Cell.contains_ofBinary_unique (Nat.pos_of_ne_zero hm) (Nat.pos_of_ne_zero hm') h h' hcell
      (Decimal.contains_shortest .up (Nat.pos_of_ne_zero hm') e')

/-- The bits of a finite number by its parts. -/
theorem bits_of_ofBits {n : Nat} (hn : n < 2 ^ 64) {negative : Bool} {m : Nat} {e : Int}
    (h : BinaryParts.ofBits n = .finite negative m e) :
    n = (if negative then 2 ^ 63 else 0) +
      ((if m < 2 ^ 52 then 0 else (e + 1075).toNat) * 2 ^ 52 + m % 2 ^ 52) := by
  have hleading : leadingBit = 2 ^ 52 := rfl
  have hsign : n.testBit 63 = true ↔ n / 2 ^ 63 % 2 = 1 := by
    rw [Nat.testBit_eq_decide_div_mod_eq, decide_eq_true_eq]
  simp only [BinaryParts.ofBits, Nat.shiftRight_eq_div_pow, hleading] at h
  split_ifs at h with h1 h2 h3
  all_goals
    obtain ⟨rfl, rfl, rfl⟩ := BinaryParts.finite.inj h
    split <;> rename_i hs <;> rw [hsign] at hs
  · rw [if_pos (Nat.mod_lt _ (by norm_num))]
    omega
  · rw [if_pos (Nat.mod_lt _ (by norm_num))]
    omega
  · rw [if_neg (by omega)]
    omega
  · rw [if_neg (by omega)]
    omega

/-- The parts of a finite number say which number it is. -/
theorem eq_of_ofFloat_eq {x y : Float} {negative : Bool} {m : Nat} {e : Int}
    (hx : BinaryParts.ofFloat x = .finite negative m e)
    (hy : BinaryParts.ofFloat y = .finite negative m e) : x = y := by
  have hbits :=
    (bits_of_ofBits x.toBits.toNat_lt hx).trans (bits_of_ofBits y.toBits.toNat_lt hy).symm
  exact Float.toBits_inj.1 (UInt64.toNat_inj.1 hbits)

/-- **Finite numbers with the same text are the same.** -/
theorem numberText_inj {x y : Float} (hx : x.isFinite) (hy : y.isFinite)
    (h : numberText x = numberText y) : x = y := by
  obtain ⟨negative, m, e, hpartsx, hcx, htextx⟩ := exists_numberText hx
  obtain ⟨negative', m', e', hpartsy, hcy, htexty⟩ := exists_numberText hy
  rw [h, htexty] at htextx
  obtain ⟨rfl, hmagnitude⟩ := signText_append_inj (isMagnitude_magnitude _ _)
    (isMagnitude_magnitude _ _) htextx
  obtain ⟨rfl, rfl⟩ := magnitude_inj hcy hcx hmagnitude
  exact eq_of_ofFloat_eq hpartsx hpartsy

end Scriptlet
