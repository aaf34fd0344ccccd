import Mathlib.Data.List.TakeWhile
import Scriptlet.Token.Lexeme

/-!
# What lexemes are

The lexemes of the language, without regard to how they are read or to what stands behind them.
Whatever `readLexeme` takes from the front of a text is one of them, and is of the kind that it
says. So what a token stands for can be seen in its lexeme alone: an identifier has the name that is
written there, and a symbol has one spelling.

No lexeme but the one of a line end contains a newline.

## Main definitions

* `IsWord`, `IsLexeme` — words, and the lexemes of each kind of token

## Main results

* `readLexeme_sound` — what is read is a lexeme
* `IsLexeme.no_newline` — lexemes stand on one line
-/

namespace Scriptlet

/-- The letters of words. -/
def IsLetter (c : Char) : Prop := 'a' ≤ c ∧ c ≤ 'z' ∨ 'A' ≤ c ∧ c ≤ 'Z' ∨ c = '_'

/-- A word is a letter, with letters and digits behind it. -/
def IsWord (c : Char) (cs : List Char) : Prop := IsLetter c ∧ ∀ d ∈ cs, IsLetter d ∨ d.isDigit

/-- The lexemes of each kind of token. No lexeme marks the end of a file. -/
inductive IsLexeme : Token.Kind → List Char → Prop
  | newline : IsLexeme .newline ['\n']
  | number {ds} (hne : ds ≠ []) (hd : ∀ d ∈ ds, d.isDigit) :
      IsLexeme (.number (Float.ofNat (digitsValue ds))) ds
  | word {c cs} (hw : IsWord c cs) : IsLexeme (wordKind (c :: cs)) (c :: cs)
  | string {cs value} (h : readString cs = .ok (value, cs.length)) :
      IsLexeme (.string (String.ofList value)) ('"' :: cs)
  | symbol (s : Symbol) : IsLexeme (.symbol s) s.text.toList

/-! ### Words -/

theorem isWordChar_iff {c : Char} : isWordChar c ↔ IsLetter c ∨ c.isDigit := by
  have hupper : c.isUpper ↔ 'A' ≤ c ∧ c ≤ 'Z' := decide_eq_true_iff
  have hlower : c.isLower ↔ 'a' ≤ c ∧ c ≤ 'z' :=
    Bool.and_eq_true_iff.trans (and_congr decide_eq_true_iff decide_eq_true_iff)
  have hword : isWordChar c = (c.isUpper || c.isLower || c.isDigit || c = '_') := rfl
  rw [hword, Bool.or_eq_true, Bool.or_eq_true, Bool.or_eq_true, hupper, hlower,
    decide_eq_true_iff, IsLetter]
  grind

theorem IsLetter.not_isDigit {c : Char} (h : IsLetter c) : ¬ c.isDigit := by
  intro hdigit
  have hhigh : c.toNat ≤ 57 := (Char.isDigit_iff_toNat.1 hdigit).2
  obtain ⟨hlow, -⟩ | ⟨hlow, -⟩ | rfl := h
  · have : 97 ≤ c.toNat := UInt32.le_iff_toNat_le.1 hlow
    omega
  · have : 65 ≤ c.toNat := UInt32.le_iff_toNat_le.1 hlow
    omega
  · exact absurd hhigh (by decide)

/-- **What is read as a word**: characters of words, the first of which is no digit. -/
theorem isWord_iff {c : Char} {cs : List Char} :
    IsWord c cs ↔ ¬ c.isDigit ∧ ∀ d ∈ c :: cs, isWordChar d := by
  rw [IsWord, List.forall_mem_cons]
  simp only [isWordChar_iff]
  constructor
  · rintro ⟨hc, hcs⟩
    exact ⟨hc.not_isDigit, .inl hc, hcs⟩
  · rintro ⟨hdigit, hc, hcs⟩
    exact ⟨hc.resolve_right hdigit, hcs⟩

/-! ### String literals -/

theorem putBefore_eq_ok {n length : Nat} {c : Char} {value : List Char}
    {r : Except LexicalError (List Char × Nat)} (h : putBefore n c r = .ok (value, length)) :
    ∃ value' length', r = .ok (value', length') ∧ value = c :: value' ∧ length = n + length' := by
  rcases r with e | ⟨value', length'⟩
  · cases h
  · cases h
    exact ⟨value', length', rfl, rfl, rfl⟩

/-- The closing quote ends a literal, so what stands behind it plays no part. -/
theorem readString_take {cs value : List Char} {n : Nat} (h : readString cs = .ok (value, n)) :
    n ≤ cs.length ∧ '\n' ∉ cs.take n ∧ readString (cs.take n) = .ok (value, n) := by
  fun_induction readString cs generalizing value n with
  | case1 | case2 | case4 | case5 | case7 => cases h
  | case3 cs hn =>
    cases h
    exact ⟨Nat.le_add_left .., by simp, rfl⟩
  | case6 d ds hn e he _ _ ih =>
    obtain ⟨value, n, hread, rfl, rfl⟩ := putBefore_eq_ok h
    obtain ⟨hle, hline, hread⟩ := ih hread
    rw [Nat.add_comm 2]
    refine ⟨Nat.add_le_add_right hle 2, ?_, ?_⟩
    · simpa [eq_comm, hn] using hline
    · simp [readString, hn, he, hread, putBefore, Nat.add_comm 2]
  | case8 c cs hn hq hb ih =>
    obtain ⟨value, n, hread, rfl, rfl⟩ := putBefore_eq_ok h
    obtain ⟨hle, hline, hread⟩ := ih hread
    rw [Nat.add_comm 1]
    refine ⟨Nat.add_le_add_right hle 1, ?_, ?_⟩
    · simpa [eq_comm, hn] using hline
    · rw [List.take_succ_cons, readString.eq_def]
      simp [hn, hq, hb, hread, putBefore, Nat.add_comm 1]

/-! ### Reading -/

theorem Symbol.toList_text_of_ofChar? {c : Char} {s : Symbol} (h : ofChar? c = some s) :
    s.text.toList = [c] := by
  unfold ofChar? at h
  split at h <;> cases h <;> rfl

theorem Symbol.toList_text_of_beforeEquals? {c : Char} {s : Symbol} (h : beforeEquals? c = some s) :
    s.text.toList = [c, '='] := by
  unfold beforeEquals? at h
  split at h <;> cases h <;> rfl

theorem take_length_takeWhile {α : Type} (p : α → Bool) (l : List α) :
    l.take (l.takeWhile p).length = l.takeWhile p :=
  (List.prefix_iff_eq_take.1 (List.takeWhile_prefix p)).symm

/-- **What is read is a lexeme**, of the kind that is told. -/
theorem readLexeme_sound {c : Char} {cs : List Char} {kind : Token.Kind} {n : Nat}
    (h : readLexeme c cs = .ok (kind, n)) : n ≤ cs.length ∧ IsLexeme kind (c :: cs.take n) := by
  have hle := fun p : Char → Bool => (List.takeWhile_prefix (l := cs) p).length_le
  unfold readLexeme at h
  split at h
  · rename_i hc
    cases h
    exact ⟨Nat.zero_le _, hc ▸ .newline⟩
  split at h
  · rename_i hc
    cases h
    rw [take_length_takeWhile]
    exact ⟨hle _, .number (List.cons_ne_nil _ _)
      (List.forall_mem_cons.2 ⟨hc, fun _ => List.mem_takeWhile_imp⟩)⟩
  split at h
  · rename_i hd hc
    cases h
    rw [take_length_takeWhile]
    exact ⟨hle _, .word (isWord_iff.2
      ⟨hd, List.forall_mem_cons.2 ⟨hc, fun _ => List.mem_takeWhile_imp⟩⟩)⟩
  split at h
  · rename_i hc
    split at h
    · rename_i value length hread
      cases h
      obtain ⟨hn, -, hread⟩ := readString_take hread
      exact ⟨hn, hc ▸ .string (by rw [hread, List.length_take_of_le hn])⟩
    · cases h
  split at h
  · rename_i s hs
    cases h
    exact ⟨Nat.zero_le _, Symbol.toList_text_of_ofChar? hs ▸ .symbol s⟩
  · rename_i s tail _ hs
    cases h
    exact ⟨Nat.le_add_left .., Symbol.toList_text_of_beforeEquals? hs ▸ .symbol s⟩
  · cases h

/-! ### What is in a lexeme -/

theorem wordKind_cases (word : List Char) :
    (∃ k, wordKind word = .keyword k) ∨ wordKind word = .identifier (String.ofList word) := by
  unfold wordKind
  split
  · exact .inl ⟨_, rfl⟩
  · exact .inr rfl

namespace IsLexeme

variable {kind : Token.Kind} {lexeme : List Char}

theorem ne_nil (h : IsLexeme kind lexeme) : lexeme ≠ [] := by
  cases h with
  | number hne _ => exact hne
  | newline | word | string => exact List.cons_ne_nil _ _
  | symbol s => cases s <;> decide

theorem ne_endOfFile (h : IsLexeme kind lexeme) : kind ≠ .endOfFile := by
  cases h with
  | newline | number | string | symbol => simp
  | word => rcases wordKind_cases _ with ⟨k, hk⟩ | hk <;> rw [hk] <;> simp

/-- **Lexemes stand on one line**, but for line ends. -/
theorem no_newline (h : IsLexeme kind lexeme) (hk : kind ≠ .newline) : '\n' ∉ lexeme := by
  cases h with
  | newline => exact absurd rfl hk
  | number _ hd => exact fun hn => absurd (hd _ hn) (by decide)
  | word hw => exact fun hn => absurd ((isWord_iff.1 hw).2 _ hn) (by decide)
  | @string cs value h =>
    have := (readString_take h).2.1
    rw [List.take_length] at this
    simpa using this
  | symbol s => cases s <;> decide

/-- An identifier has the name that is written. -/
theorem eq_of_identifier (h : IsLexeme kind lexeme) {name : String} (hk : kind = .identifier name) :
    lexeme = name.toList ∧ ∀ c ∈ lexeme, isWordChar c := by
  cases h with
  | newline | number | string | symbol => cases hk
  | @word c cs hw =>
    rcases wordKind_cases (c :: cs) with ⟨k, hword⟩ | hword <;> rw [hword] at hk <;> cases hk
    exact ⟨String.toList_ofList.symm, (isWord_iff.1 hw).2⟩

/-- A symbol has one spelling. -/
theorem eq_of_symbol (h : IsLexeme kind lexeme) {s : Symbol} (hk : kind = .symbol s) :
    lexeme = s.text.toList := by
  cases h with
  | newline | number | string => cases hk
  | symbol s =>
    cases hk
    rfl
  | word => rcases wordKind_cases _ with ⟨k, hword⟩ | hword <;> rw [hword] at hk <;> cases hk

end IsLexeme

end Scriptlet
