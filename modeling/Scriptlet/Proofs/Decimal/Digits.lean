import Scriptlet.Decimal.Positional

/-!
# Digits and numbers

The digits of a natural number stand for that number, and the first of them is no zero, unless the
number is zero.

## Main definitions

* `IsDigits` — a row of one or more digits

## Main results

* `isDigits_natDigits` — a number is written with digits
* `digitsValue_natDigits` — digits stand for the number that they were made from
* `head?_natDigits` — no zero is written before a number
-/

namespace Scriptlet

/-- A row of one or more digits. -/
def IsDigits (ds : List Char) : Prop := ds ≠ [] ∧ ∀ d ∈ ds, d.isDigit

theorem isDigits_natDigits (n : Nat) : IsDigits (natDigits n) :=
  ⟨Nat.toDigits_ne_nil, fun _ => Nat.isDigit_of_mem_toDigits (by decide) (by decide)⟩

theorem isDigits_zero : IsDigits ['0'] :=
  ⟨List.cons_ne_nil _ _, List.forall_mem_singleton.2 rfl⟩

namespace IsDigits

variable {ds : List Char} (hd : IsDigits ds)
include hd

theorem append {es : List Char} (he : ∀ e ∈ es, e.isDigit) : IsDigits (ds ++ es) :=
  ⟨List.append_ne_nil_of_left_ne_nil hd.1 es, List.forall_mem_append.2 ⟨hd.2, he⟩⟩

theorem zeros_append (n : Nat) : IsDigits (Decimal.zeros n ++ ds) := by
  refine ⟨List.append_ne_nil_of_right_ne_nil _ hd.1,
    List.forall_mem_append.2 ⟨fun e he => ?_, hd.2⟩⟩
  obtain rfl := List.eq_of_mem_replicate he
  rfl

theorem take {n : Nat} (hn : 0 < n) : IsDigits (ds.take n) := by
  refine ⟨?_, fun d h => hd.2 d (List.mem_of_mem_take h)⟩
  rw [Ne, List.take_eq_nil_iff, not_or]
  exact ⟨Nat.pos_iff_ne_zero.1 hn, hd.1⟩

theorem drop {n : Nat} (hn : n < ds.length) : IsDigits (ds.drop n) := by
  refine ⟨?_, fun d h => hd.2 d (List.mem_of_mem_drop h)⟩
  rw [Ne, List.drop_eq_nil_iff]
  exact Nat.not_le.2 hn

end IsDigits

theorem digitValue_lt {c : Char} (h : c.isDigit) : digitValue c < 10 := by
  rw [Char.isDigit_iff_toNat] at h
  have hzero : '0'.toNat = 48 := rfl
  have hnine : '9'.toNat = 57 := rfl
  rw [digitValue]
  omega

theorem digitsValue_eq (ds : List Char) : digitsValue ds = Nat.ofDigitChars 10 ds 0 :=
  Nat.ofDigitChars_eq_foldl.symm

theorem digitsValue_natDigits (n : Nat) : digitsValue (natDigits n) = n := by
  rw [digitsValue_eq]
  exact Nat.ofDigitChars_ten_toDigits

/-- No zero is written before a number. -/
theorem head?_natDigits {n : Nat} (h : 0 < n) : (natDigits n).head? ≠ some '0' := by
  induction n using Nat.strongRecOn with
  | ind n ih =>
    rw [natDigits, Nat.toDigits_eq_if (by decide)]
    split
    · simpa using Nat.pos_iff_ne_zero.1 h
    · have hhead := ih (n / 10) (by omega) (by omega)
      obtain ⟨c, cs, hcs⟩ :=
        List.exists_cons_of_ne_nil (Nat.toDigits_ne_nil (b := 10) (n := n / 10))
      rw [natDigits, hcs] at hhead
      rw [hcs]
      exact hhead

end Scriptlet
