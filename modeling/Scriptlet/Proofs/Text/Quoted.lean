import Scriptlet.Proofs.Token.Spelling

/-!
# How quoted texts are read

A quoted text shows most characters as a string literal may write them. The others are shown by
escapes of their own: `\0`, and code points. Each way of showing a character says where it ends, and
no two characters are shown alike. So the characters of a quoted text can be read off, one by one,
up to its closing quote.

## Main definitions

* `Shown` — how a character is shown in a quoted text

## Main results

* `shown_quotedChar` — characters are shown in one of these ways
* `Shown.unique` — what is shown says which character it is, and where it ends
* `append_run_inj` — runs of characters of a class end where they seem to
* `quoted_append_inj` — a quoted text can be told from what stands behind it
-/

namespace Scriptlet

/-- How a character is shown in a quoted text: as a literal may write it, as `\0`, or by its code
point. -/
inductive Shown : List Char → Char → Prop
  | item {written c} (h : Item written c) : Shown written c
  | zero : Shown ['\\', '0'] '\x00'
  | codePoint (c : Char) : Shown (codePointEscape c) c

/-- **Characters are shown in one of these ways.** -/
theorem shown_quotedChar (c : Char) : Shown (quotedChar c) c := by
  have hescape : ∀ {c d : Char}, (c, d) ∈ escapes → Shown ['\\', c] d := fun h => .item (.escape h)
  unfold quotedChar
  split
  · exact .zero
  · exact hescape (by simp [escapes])
  · exact hescape (by simp [escapes])
  · exact hescape (by simp [escapes])
  · exact hescape (by simp [escapes])
  · exact hescape (by simp [escapes])
  · rename_i hline hquote hbackslash
    split
    · exact .codePoint c
    · exact .item (.plain hquote hbackslash hline)

/-! ### Code points -/

theorem digitChar_inj {m n : Nat} (hm : m < 16) (hn : n < 16)
    (h : Nat.digitChar m = Nat.digitChar n) : m = n := by
  have hall : ∀ m < 16, ∀ n < 16, Nat.digitChar m = Nat.digitChar n → m = n := by decide
  exact hall m hm n hn h

theorem mark_not_mem_hex (n : Nat) : '\x7d' ∉ hex n := by
  induction n using Nat.strongRecOn with
  | ind n ih =>
    have hdigit : ∀ m : Nat, Nat.digitChar m ≠ '\x7d' := fun m => Nat.digitChar_ne _ (by decide)
    by_cases hn : n < 16
    · rw [hex, Nat.toDigits_of_lt_base hn, List.mem_singleton]
      exact (hdigit n).symm
    · rw [hex, Nat.toDigits_of_base_le (by decide) (by omega), List.mem_append, List.mem_singleton]
      rintro (h | h)
      · exact ih (n / 16) (by omega) h
      · exact hdigit _ h.symm

theorem hex_inj {m n : Nat} (h : hex m = hex n) : m = n := by
  induction m using Nat.strongRecOn generalizing n with
  | ind m ih =>
    have hshort : ∀ {k l : Nat}, k < 16 → ¬ l < 16 → hex k ≠ hex l := by
      intro k l hk hl h
      rw [hex, hex, Nat.toDigits_of_lt_base hk,
        Nat.toDigits_of_base_le (by decide) (Nat.le_of_not_lt hl)] at h
      have hlength := congrArg List.length h
      have hpos := Nat.length_toDigits_pos (b := 16) (n := l / 16)
      rw [List.length_append, List.length_singleton, List.length_singleton] at hlength
      omega
    by_cases hm : m < 16 <;> by_cases hn : n < 16
    · rw [hex, hex, Nat.toDigits_of_lt_base hm, Nat.toDigits_of_lt_base hn] at h
      exact digitChar_inj hm hn (List.cons.inj h).1
    · exact absurd h (hshort hm hn)
    · exact absurd h.symm (hshort hn hm)
    · rw [hex, hex, Nat.toDigits_of_base_le (n := m) (by decide) (by omega),
        Nat.toDigits_of_base_le (n := n) (by decide) (by omega)] at h
      obtain ⟨hinit, hlast⟩ := List.append_inj' h rfl
      have hquotient := ih (m / 16) (by omega) hinit
      have hrest := digitChar_inj (by omega) (by omega) (List.cons.inj hlast).1
      omega

/-- A run of characters of a class can be told from what stands behind it. -/
theorem append_run_inj {P : Char → Bool} {cs ds r s : List Char} (hcs : ∀ c ∈ cs, P c)
    (hds : ∀ d ∈ ds, P d) (hr : ∀ c ∈ r.head?, ¬ P c) (hs : ∀ c ∈ s.head?, ¬ P c)
    (h : cs ++ r = ds ++ s) : cs = ds ∧ r = s := by
  have htake : ∀ {cs r : List Char}, (∀ c ∈ cs, P c) → (∀ c ∈ r.head?, ¬ P c) →
      (cs ++ r).takeWhile P = cs := by
    intro cs r hcs hr
    have hnone : r.takeWhile P = [] := by
      cases r with
      | nil => rfl
      | cons c r => exact List.takeWhile_cons_of_neg (hr c rfl)
    rw [List.takeWhile_append_of_pos hcs, hnone, List.append_nil]
  obtain rfl : cs = ds := by rw [← htake hcs hr, h, htake hds hs]
  exact ⟨rfl, List.append_cancel_left h⟩

/-- A stretch up to the first mark of some kind can be told from what stands behind it. -/
theorem append_mark_inj {mark : Char} {cs ds r s : List Char} (hcs : mark ∉ cs) (hds : mark ∉ ds)
    (h : cs ++ mark :: r = ds ++ mark :: s) : cs = ds ∧ r = s := by
  have hne : ∀ {cs : List Char}, mark ∉ cs → ∀ c ∈ cs, decide (c ≠ mark) = true := by
    intro cs hcs c hc
    rw [decide_eq_true_eq]
    rintro rfl
    exact hcs hc
  obtain ⟨hstretch, hrest⟩ := append_run_inj (hne hcs) (hne hds) (by simp) (by simp) h
  exact ⟨hstretch, (List.cons.inj hrest).2⟩

theorem codePointEscape_eq (c : Char) :
    codePointEscape c = '\\' :: 'u' :: '\x7b' :: (hex c.toNat ++ ['\x7d']) := by
  rw [codePointEscape, List.append_assoc]
  rfl

/-! ### Reading off -/

variable {written ws r s : List Char} {c d letter : Char}

/-- An item of a literal is no escape that literals do not have. -/
theorem Item.append_ne (h : Item written c) (hl : ∀ e, (letter, e) ∉ escapes) :
    written ++ r ≠ '\\' :: letter :: s := by
  intro heq
  cases h with
  | plain _ hbackslash _ => exact hbackslash (List.cons.inj heq).1
  | escape he =>
    cases heq
    exact hl _ he

theorem Item.unique (h : Item written c) (h' : Item ws d) (heq : written ++ r = ws ++ s) :
    c = d ∧ r = s := by
  cases h with
  | plain _ hbackslash _ =>
    cases h' with
    | plain => exact List.cons.inj heq
    | escape => exact absurd (List.cons.inj heq).1 hbackslash
  | escape he =>
    cases h' with
    | plain _ hbackslash _ => exact absurd (List.cons.inj heq).1.symm hbackslash
    | escape he' =>
      cases heq
      rw [← unescape?_eq_some_iff] at he he'
      exact ⟨Option.some.inj (he.symm.trans he'), rfl⟩

theorem zero_not_escaped (e : Char) : ('0', e) ∉ escapes := by simp [escapes]

theorem codePoint_not_escaped (e : Char) : ('u', e) ∉ escapes := by simp [escapes]

namespace Shown

/-- No character is shown as the closing quote. -/
theorem append_ne (h : Shown written c) : written ++ r ≠ '"' :: s := by
  intro heq
  cases h with
  | zero => cases heq
  | codePoint =>
    rw [codePointEscape_eq] at heq
    cases heq
  | item h =>
    cases h with
    | plain hquote _ _ => exact hquote (List.cons.inj heq).1
    | escape => cases heq

/-- **What is shown says which character it is, and where it ends.** -/
theorem unique (h : Shown written c) (h' : Shown ws d) (heq : written ++ r = ws ++ s) :
    c = d ∧ r = s := by
  cases h with
  | item h =>
    cases h' with
    | item h' => exact h.unique h' heq
    | zero => exact absurd heq (h.append_ne zero_not_escaped)
    | codePoint =>
      rw [codePointEscape_eq] at heq
      exact absurd heq (h.append_ne codePoint_not_escaped)
  | zero =>
    cases h' with
    | item h' => exact absurd heq.symm (h'.append_ne zero_not_escaped)
    | zero => exact ⟨rfl, List.append_cancel_left heq⟩
    | codePoint =>
      rw [codePointEscape_eq] at heq
      cases heq
  | codePoint =>
    rw [codePointEscape_eq] at heq
    cases h' with
    | item h' => exact absurd heq.symm (h'.append_ne codePoint_not_escaped)
    | zero => cases heq
    | codePoint =>
      rw [codePointEscape_eq] at heq
      simp only [List.cons_append, List.cons.injEq, true_and, List.append_assoc] at heq
      obtain ⟨hhex, hrest⟩ := append_mark_inj (mark_not_mem_hex _) (mark_not_mem_hex _) heq
      exact ⟨Char.toNat_inj.1 (hex_inj hhex), hrest⟩

end Shown

/-- **A quoted text can be told from what stands behind it.** -/
theorem quoted_append_inj {a b : String} {r s : List Char}
    (h : (quoted a).toList ++ r = (quoted b).toList ++ s) : a = b ∧ r = s := by
  have hchars : ∀ {cs ds : List Char},
      cs.flatMap quotedChar ++ '"' :: r = ds.flatMap quotedChar ++ '"' :: s → cs = ds ∧ r = s := by
    intro cs
    induction cs with
    | nil =>
      rintro (_ | ⟨d, ds⟩) h
      · exact ⟨rfl, (List.cons.inj h).2⟩
      · rw [List.flatMap_cons, List.append_assoc] at h
        exact absurd h.symm (shown_quotedChar d).append_ne
    | cons c cs ih =>
      rintro (_ | ⟨d, ds⟩) h
      · rw [List.flatMap_cons, List.append_assoc] at h
        exact absurd h (shown_quotedChar c).append_ne
      · rw [List.flatMap_cons, List.flatMap_cons, List.append_assoc, List.append_assoc] at h
        obtain ⟨rfl, hrest⟩ := (shown_quotedChar c).unique (shown_quotedChar d) h
        obtain ⟨rfl, hr⟩ := ih hrest
        exact ⟨rfl, hr⟩
  simp only [quoted, String.toList_ofList, List.cons_append, List.append_assoc,
    List.nil_append, List.cons.injEq, true_and] at h
  obtain ⟨htext, hrest⟩ := hchars h
  exact ⟨String.toList_inj.1 htext, hrest⟩

end Scriptlet
