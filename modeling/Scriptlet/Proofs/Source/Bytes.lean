import Scriptlet.Source.File
import Scriptlet.Source.Place

/-!
# Bytes of texts

A text is made of characters, and offsets into it count bytes. So an offset may lie inside a
character, where the text cannot be cut.

## Main definitions

* `utf8`, `leadByte` — the bytes of a text, and the first byte of a character

## Main results

* `apply_leadByte` — what is told by the first byte of a character
* `splitBytes?_eq_some_iff`, `sliceBytes?_eq_some_iff` — what can be cut at byte offsets
-/

namespace Scriptlet

/-- The bytes of a text. -/
def utf8 (cs : List Char) : List UInt8 := cs.flatMap String.utf8EncodeChar

/-! ### Counting bytes -/

theorem utf8_append (cs ds : List Char) : utf8 (cs ++ ds) = utf8 cs ++ utf8 ds :=
  List.flatMap_append

theorem length_utf8 (cs : List Char) : (utf8 cs).length = byteCount cs := by
  induction cs with
  | nil => rfl
  | cons c cs ih =>
    rw [utf8, List.flatMap_cons, List.length_append, String.length_utf8EncodeChar, byteCount_cons]
    exact congrArg _ ih

theorem byteCount_toList (s : String) : byteCount s.toList = s.utf8ByteSize := by
  rw [← length_utf8, ← String.size_toByteArray, ← String.utf8Encode_toList, List.utf8Encode,
    List.size_toByteArray, utf8]

theorem byteCount_pos {cs : List Char} (h : cs ≠ []) : 0 < byteCount cs := by
  cases cs with
  | nil => exact absurd rfl h
  | cons c cs =>
    have := c.utf8Size_pos
    rw [byteCount_cons]
    omega

theorem eq_nil_of_byteCount {cs : List Char} (h : byteCount cs = 0) : cs = [] :=
  Decidable.byContradiction fun hne => Nat.ne_of_gt (byteCount_pos hne) h

/-! ### First bytes -/

/-- The byte that a character starts with. -/
def leadByte (c : Char) : UInt8 := (String.utf8EncodeChar c).head String.utf8EncodeChar_ne_nil

theorem utf8Size_eq_one_iff_toNat {c : Char} : c.utf8Size = 1 ↔ c.toNat < 128 :=
  Char.utf8Size_eq_one_iff.trans (UInt32.le_iff_toNat_le.trans Nat.lt_succ_iff.symm)

theorem toNat_toUInt8 {c : Char} (h : c.utf8Size = 1) : c.toUInt8.toNat = c.toNat := by
  have hlow := utf8Size_eq_one_iff_toNat.1 h
  exact (UInt32.toNat_toUInt8 c.val).trans (Nat.mod_eq_of_lt (Nat.lt_trans hlow (by decide)))

theorem leadByte_of_utf8Size_eq_one {c : Char} (h : c.utf8Size = 1) : leadByte c = c.toUInt8 := by
  simp only [leadByte, String.utf8EncodeChar_eq_singleton h]
  rfl

theorem le_leadByte {c : Char} (h : c.utf8Size ≠ 1) : 128 ≤ leadByte c := by
  have hwide : ¬ c.val.toNat ≤ 127 := fun hle => h (Char.utf8Size_eq_one_iff.2 hle)
  simp only [leadByte, String.utf8EncodeChar, if_neg hwide, UInt8.le_iff_toNat_le]
  split
  · simp
    omega
  · split <;> simp <;> omega

/-- A character of one byte is told by the first byte of what stands there. -/
theorem leadByte_eq_iff {c d : Char} (hd : d.utf8Size = 1) : leadByte c = d.toUInt8 ↔ c = d := by
  constructor
  · intro h
    by_cases hc : c.utf8Size = 1
    · rw [leadByte_of_utf8Size_eq_one hc, ← UInt8.toNat_inj, toNat_toUInt8 hc,
        toNat_toUInt8 hd] at h
      exact Char.ext (UInt32.toNat_inj.1 h)
    · have hle := UInt8.le_iff_toNat_le.1 (le_leadByte hc)
      rw [h, toNat_toUInt8 hd] at hle
      exact absurd (utf8Size_eq_one_iff_toNat.1 hd) (Nat.not_lt.2 hle)
  · rintro rfl
    exact leadByte_of_utf8Size_eq_one hd

/-- **What is told by the first byte of a character**: a function of bytes does what one of
characters does if they agree below 128, and neither tells apart what lies beyond. -/
theorem apply_leadByte {α : Type} {f : UInt8 → α} {g : Char → α} {a : α}
    (hlow : ∀ n < 128, f (.ofNat n) = g (.ofNat n)) (hhigh : ∀ b, 128 ≤ b → f b = a)
    (hwide : ∀ c : Char, c.utf8Size ≠ 1 → g c = a) (c : Char) : f (leadByte c) = g c := by
  by_cases hc : c.utf8Size = 1
  · have hg := hlow c.toNat (utf8Size_eq_one_iff_toNat.1 hc)
    rw [Char.ofNat_toNat] at hg
    rw [leadByte_of_utf8Size_eq_one hc, ← hg]
    rfl
  · rw [hhigh _ (le_leadByte hc), hwide c hc]

/-- The byte behind a stretch of text is the first one of the next character. -/
theorem getElem?_utf8_append (before after : List Char) :
    (utf8 (before ++ after))[byteCount before]? = after.head?.map leadByte := by
  rw [utf8_append, List.getElem?_append_right (Nat.le_of_eq (length_utf8 before)), length_utf8,
    Nat.sub_self]
  cases after with
  | nil => rfl
  | cons c cs =>
    rw [utf8, List.flatMap_cons, ← List.head?_eq_getElem?, List.head?_append,
      List.head?_eq_some_head String.utf8EncodeChar_ne_nil]
    rfl

/-! ### Cutting at byte offsets -/

/-- **A text can be cut** wherever a character starts, and at its end. -/
theorem splitBytes?_eq_some_iff {cs before after : List Char} {n : Nat} :
    splitBytes? cs n = some (before, after) ↔ cs = before ++ after ∧ byteCount before = n := by
  constructor
  · intro h
    fun_induction splitBytes? cs n generalizing before with
    | case1 cs =>
      obtain ⟨rfl, rfl⟩ := Prod.mk.inj (Option.some.inj h)
      exact ⟨rfl, rfl⟩
    | case2 | case4 => cases h
    | case3 c cs n hle ih =>
      obtain ⟨⟨before, after⟩, hsplit, heq⟩ := Option.map_eq_some_iff.1 h
      obtain ⟨rfl, rfl⟩ := Prod.mk.inj heq
      obtain ⟨rfl, hbytes⟩ := ih hsplit
      refine ⟨rfl, ?_⟩
      rw [byteCount_cons, hbytes]
      exact Nat.add_sub_cancel' hle
  · rintro ⟨rfl, rfl⟩
    induction before with
    | nil => cases after <;> rfl
    | cons c cs ih =>
      obtain ⟨n, hn⟩ : ∃ n, byteCount (c :: cs) = n + 1 :=
        Nat.exists_eq_add_one.2 (byteCount_pos (List.cons_ne_nil c cs))
      have hle : c.utf8Size ≤ n + 1 := by
        rw [← hn, byteCount_cons]
        exact Nat.le_add_right _ _
      have hrest : n + 1 - c.utf8Size = byteCount cs := by
        rw [← hn, byteCount_cons, Nat.add_sub_cancel_left]
      rw [hn, List.cons_append, splitBytes?, if_pos hle, hrest, ih]
      rfl

theorem splitBytes?_append (before after : List Char) :
    splitBytes? (before ++ after) (byteCount before) = some (before, after) :=
  splitBytes?_eq_some_iff.2 ⟨rfl, rfl⟩

/-- **What lies between two byte offsets** is a stretch of whole characters that starts at the first
one and stops at the second one, if there is one. -/
theorem sliceBytes?_eq_some_iff {cs stretch : List Char} {start stop : Nat} :
    sliceBytes? cs start stop = some stretch ↔
      ∃ before after, cs = before ++ (stretch ++ after) ∧ byteCount before = start ∧
        byteCount (before ++ stretch) = stop := by
  rw [sliceBytes?]
  constructor
  · intro h
    split at h
    · obtain ⟨⟨before, rest⟩, hbefore, h⟩ := Option.bind_eq_some_iff.1 h
      obtain ⟨⟨stretch', after⟩, hstretch, h⟩ := Option.bind_eq_some_iff.1 h
      obtain rfl := Option.some.inj h
      obtain ⟨rfl, rfl⟩ := splitBytes?_eq_some_iff.1 hbefore
      obtain ⟨rfl, hbytes⟩ := splitBytes?_eq_some_iff.1 hstretch
      refine ⟨before, after, rfl, rfl, ?_⟩
      rw [byteCount_append, hbytes]
      exact Nat.add_sub_cancel' ‹_›
    · cases h
  · rintro ⟨before, after, rfl, rfl, rfl⟩
    rw [byteCount_append, if_pos (Nat.le_add_right _ _), splitBytes?_append, Option.bind_eq_bind,
      Option.bind_some, Nat.add_sub_cancel_left]
    simp only [splitBytes?_append]
    rfl

end Scriptlet
