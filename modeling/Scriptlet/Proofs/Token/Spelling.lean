import Mathlib.Data.List.TakeWhile
import Scriptlet.Proofs.Token.Lexeme

/-!
# How lexemes are spelt

Lexemes without a reader. `IsLexeme` leaves what a string literal is to the function that reads it;
here its contents are written down item by item, and so are the ways in which a literal can be
spoilt. Reserved words and identifiers are told apart as well. The spellings that come out are
exactly the lexemes.

A reader that has a whole text before it takes at least as much as any lexeme at its start. For
symbols, line ends and literals that is because they show where they end. Digits and words are runs
of characters of one class, which only become longer with more text behind them.

## Main definitions

* `Item`, `Contents` — what is written in a string literal, and what it stands for
* `Unclosed`, `Spoilt` — literals that cannot be read
* `Spells` — the spellings of each kind of token

## Main results

* `readString_eq_ok_iff`, `readString_eq_error` — how the contents of a literal are read
* `spells_iff` — spellings are what is read as a lexeme
* `IsLexeme.readLexeme_append` — no longer lexeme is missed
* `IsLexeme.kind_unique` — a lexeme is of one kind
* `readLexeme_eq_error` — why no lexeme can be read
-/

namespace Scriptlet

/-! ### String literals -/

/-- The characters that a backslash escapes, with what they stand for behind it. -/
def escapes : List (Char × Char) :=
  [('"', '"'), ('\\', '\\'), ('n', '\n'), ('t', '\t'), ('r', '\r')]

/-- A character of a literal, as it is written. -/
inductive Item : List Char → Char → Prop
  | plain {c} (hquote : c ≠ '"') (hbackslash : c ≠ '\\') (hline : c ≠ '\n') : Item [c] c
  | escape {c e} (he : (c, e) ∈ escapes) : Item ['\\', c] e

/-- What may be written between the quotes of a literal, and what it stands for. -/
inductive Contents : List Char → List Char → Prop
  | nil : Contents [] []
  | cons {c cs written ws} (hi : Item written c) (hc : Contents ws cs) :
      Contents (written ++ ws) (c :: cs)

theorem unescape?_eq_some_iff {c e : Char} : unescape? c = some e ↔ (c, e) ∈ escapes := by
  unfold unescape?
  split <;> simp_all [escapes, eq_comm]

theorem Item.readString_append {written : List Char} {c : Char} (h : Item written c)
    (cs : List Char) : readString (written ++ cs) = putBefore written.length c (readString cs) := by
  cases h with
  | plain hquote hbackslash hline =>
    rw [List.singleton_append, readString.eq_def]
    simp [hquote, hbackslash, hline]
  | @escape d e he =>
    have hline : d ≠ '\n' := by
      rintro rfl
      simp [escapes] at he
    simp [readString, hline, unescape?_eq_some_iff.2 he]

theorem Contents.readString_append {written value : List Char} (h : Contents written value)
    (rest : List Char) : readString (written ++ '"' :: rest) = .ok (value, written.length + 1) := by
  induction h with
  | nil =>
    rw [List.nil_append, readString.eq_def]
    rfl
  | @cons c cs written ws hi hc ih =>
    rw [List.append_assoc, hi.readString_append, ih, putBefore, List.length_append, Nat.add_assoc]

/-- **What a literal is read to**: its contents up to the first quote that is not escaped. -/
theorem readString_eq_ok_iff {cs value : List Char} {n : Nat} :
    readString cs = .ok (value, n) ↔
      ∃ written rest, Contents written value ∧ cs = written ++ '"' :: rest ∧
        n = written.length + 1 := by
  constructor
  · intro h
    fun_induction readString cs generalizing value n with
    | case1 | case2 | case4 | case5 | case7 => cases h
    | case3 cs _ =>
      cases h
      exact ⟨[], cs, .nil, rfl, rfl⟩
    | case6 d ds _ e he _ _ ih =>
      obtain ⟨value, n, hread, rfl, rfl⟩ := putBefore_eq_ok h
      obtain ⟨written, rest, hwritten, rfl, rfl⟩ := ih hread
      exact ⟨_, rest, .cons (.escape (unescape?_eq_some_iff.1 he)) hwritten, rfl,
        by simp only [List.length_append, List.length_cons, List.length_nil]; omega⟩
    | case8 c cs hline hquote hbackslash ih =>
      obtain ⟨value, n, hread, rfl, rfl⟩ := putBefore_eq_ok h
      obtain ⟨written, rest, hwritten, rfl, rfl⟩ := ih hread
      exact ⟨_, rest, .cons (.plain hquote hbackslash hline) hwritten, rfl,
        by simp only [List.length_append, List.length_cons, List.length_nil]; omega⟩
  · rintro ⟨written, rest, hwritten, rfl, rfl⟩
    exact hwritten.readString_append rest

/-- The rest of a text is empty, or goes on in the next line. -/
def AtLineEnd (cs : List Char) : Prop := ∀ c ∈ cs.head?, c = '\n'

/-- The start of a literal, without a quote that ends it. The last character may be a backslash that
has nothing to escape. -/
def Unclosed (line : List Char) : Prop :=
  ∃ written value, Contents written value ∧ (line = written ∨ line = written ++ ['\\'])

theorem unclosed_nil : Unclosed [] := ⟨[], [], .nil, .inl rfl⟩

theorem unclosed_backslash : Unclosed ['\\'] := ⟨[], [], .nil, .inr rfl⟩

theorem atLineEnd_nil : AtLineEnd [] := by simp [AtLineEnd]

theorem atLineEnd_newline (cs : List Char) : AtLineEnd ('\n' :: cs) := by simp [AtLineEnd]

theorem Unclosed.append {line written : List Char} {c : Char} (h : Unclosed line)
    (hi : Item written c) : Unclosed (written ++ line) := by
  obtain ⟨ws, cs, hc, rfl | rfl⟩ := h
  · exact ⟨_, _, .cons hi hc, .inl rfl⟩
  · exact ⟨_, _, .cons hi hc, .inr (List.append_assoc ..).symm⟩

/-- What a literal is like if it is spoilt: its line ends first, or a backslash stands before a
character that it does not escape. -/
def Spoilt (cs : List Char) (e : LexicalError) : Prop :=
  (∃ line rest, cs = line ++ rest ∧ Unclosed line ∧ AtLineEnd rest ∧
    e = ⟨.unterminatedString, line.length⟩) ∨
  ∃ written value c rest, cs = written ++ '\\' :: c :: rest ∧ Contents written value ∧ c ≠ '\n' ∧
    (∀ d, (c, d) ∉ escapes) ∧ e = ⟨.invalidEscape c, written.length⟩

theorem Spoilt.append {cs written : List Char} {c : Char} {e : LexicalError} (h : Spoilt cs e)
    (hi : Item written c) :
    Spoilt (written ++ cs) { e with offset := written.length + e.offset } := by
  obtain ⟨line, rest, rfl, hline, hrest, rfl⟩ | ⟨ws, value, d, rest, rfl, hc, hd, he, rfl⟩ := h
  · exact .inl ⟨written ++ line, rest, by simp, hline.append hi, hrest, by simp⟩
  · exact .inr ⟨written ++ ws, c :: value, d, rest, by simp, .cons hi hc, hd, he, by simp⟩

theorem putBefore_eq_error {n : Nat} {c : Char} {r : Except LexicalError (List Char × Nat)}
    {e : LexicalError} (h : putBefore n c r = .error e) :
    ∃ e', r = .error e' ∧ e = { e' with offset := n + e'.offset } := by
  rcases r with e' | ⟨value, length⟩ <;> cases h
  exact ⟨e', rfl, rfl⟩

/-- **Why a literal cannot be read.** -/
theorem readString_eq_error {cs : List Char} {e : LexicalError} (h : readString cs = .error e) :
    Spoilt cs e := by
  fun_induction readString cs generalizing e with
  | case3 => cases h
  | case1 =>
    cases h
    exact .inl ⟨[], [], rfl, unclosed_nil, atLineEnd_nil, rfl⟩
  | case2 cs =>
    cases h
    exact .inl ⟨[], _, rfl, unclosed_nil, atLineEnd_newline cs, rfl⟩
  | case4 =>
    cases h
    exact .inl ⟨['\\'], [], rfl, unclosed_backslash, atLineEnd_nil, rfl⟩
  | case5 ds =>
    cases h
    exact .inl ⟨['\\'], _, rfl, unclosed_backslash, atLineEnd_newline ds, rfl⟩
  | case6 d ds _ c hc _ _ ih =>
    obtain ⟨e, hread, rfl⟩ := putBefore_eq_error h
    exact (ih hread).append (.escape (unescape?_eq_some_iff.1 hc))
  | case7 d ds hd hnone =>
    cases h
    refine .inr ⟨[], [], d, ds, rfl, .nil, hd, fun c hc => ?_, rfl⟩
    rw [unescape?_eq_some_iff.2 hc] at hnone
    cases hnone
  | case8 c cs hline hquote hbackslash ih =>
    obtain ⟨e, hread, rfl⟩ := putBefore_eq_error h
    exact (ih hread).append (.plain hquote hbackslash hline)

/-! ### Spellings -/

/-- The spellings of each kind of token. -/
inductive Spells : List Char → Token.Kind → Prop
  | newline : Spells ['\n'] .newline
  | symbol (s : Symbol) : Spells s.text.toList (.symbol s)
  | number {ds} (hne : ds ≠ []) (hd : ∀ d ∈ ds, d.isDigit) :
      Spells ds (.number (Float.ofNat (digitsValue ds)))
  | keyword (k : Keyword) : Spells k.text.toList (.keyword k)
  | identifier {c cs} (hw : IsWord c cs) (hk : ∀ k : Keyword, k.text.toList ≠ c :: cs) :
      Spells (c :: cs) (.identifier (String.ofList (c :: cs)))
  | string {written value} (h : Contents written value) :
      Spells ('"' :: (written ++ ['"'])) (.string (String.ofList value))

theorem Keyword.ofText?_eq_some_iff {s : String} {k : Keyword} :
    ofText? s = some k ↔ k.text = s := by
  constructor
  · intro h
    simpa using List.find?_some h
  · rintro rfl
    exact ofText?_text k

theorem IsLexeme.keyword (k : Keyword) : IsLexeme (.keyword k) k.text.toList := by
  have hword : k.text.toList.all isWordChar := by cases k <;> decide
  have hstart : k.text.toList.head?.all fun c => !c.isDigit := by cases k <;> decide
  have hkind : wordKind k.text.toList = .keyword k := by
    rw [wordKind, String.ofList_toList, Keyword.ofText?_text]
  obtain ⟨c, cs, htext⟩ : ∃ c cs, k.text.toList = c :: cs := by cases k <;> exact ⟨_, _, rfl⟩
  rw [← hkind, htext]
  rw [htext] at hword hstart
  exact .word (isWord_iff.2 ⟨by simpa using hstart, List.all_eq_true.1 hword⟩)

/-- **Spellings are what is read as a lexeme.** -/
theorem spells_iff {kind : Token.Kind} {lexeme : List Char} :
    Spells lexeme kind ↔ IsLexeme kind lexeme := by
  constructor
  · intro h
    cases h with
    | newline => exact .newline
    | symbol s => exact .symbol s
    | number hne hd => exact .number hne hd
    | keyword k => exact .keyword k
    | @identifier c cs hw hk =>
      have hkind : wordKind (c :: cs) = .identifier (String.ofList (c :: cs)) := by
        rw [wordKind]
        split
        · rename_i k hsome
          rw [Keyword.ofText?_eq_some_iff] at hsome
          exact absurd (by rw [hsome, String.toList_ofList]) (hk k)
        · rfl
      rw [← hkind]
      exact .word hw
    | @string written value h =>
      exact .string (by rw [h.readString_append, List.length_append, List.length_singleton])
  · intro h
    cases h with
    | newline => exact .newline
    | symbol s => exact .symbol s
    | number hne hd => exact .number hne hd
    | @word c cs hw =>
      rw [wordKind]
      split
      · rename_i k hsome
        rw [Keyword.ofText?_eq_some_iff] at hsome
        rw [← String.toList_ofList (l := c :: cs), ← hsome]
        exact .keyword k
      · rename_i hnone
        refine .identifier hw fun k hk => ?_
        rw [← hk, String.ofList_toList, Keyword.ofText?_text] at hnone
        cases hnone
    | @string cs value h =>
      obtain ⟨written, rest, hwritten, rfl, hlength⟩ := readString_eq_ok_iff.1 h
      have hrest : rest = [] := by simpa using hlength
      rw [hrest]
      exact .string hwritten

/-! ### No longer lexeme is missed -/

theorem isWordChar_of_isDigit {c : Char} (h : c.isDigit) : isWordChar c := by
  simp [isWordChar, Char.isAlphanum, h]

theorem ne_newline_of_isWordChar {c : Char} (h : isWordChar c) : c ≠ '\n' := by
  rintro rfl
  exact absurd h (by decide)

theorem readLexeme_of_isDigit {c : Char} (hc : c.isDigit) (cs : List Char) :
    readLexeme c cs = .ok (.number (Float.ofNat (digitsValue (c :: cs.takeWhile Char.isDigit))),
      (cs.takeWhile Char.isDigit).length) := by
  rw [readLexeme.eq_def, if_neg (ne_newline_of_isWordChar (isWordChar_of_isDigit hc)), if_pos hc]

theorem readLexeme_of_isWordChar {c : Char} (hd : ¬ c.isDigit) (hw : isWordChar c)
    (cs : List Char) :
    readLexeme c cs =
      .ok (wordKind (c :: cs.takeWhile isWordChar), (cs.takeWhile isWordChar).length) := by
  rw [readLexeme.eq_def, if_neg (ne_newline_of_isWordChar hw), if_neg hd, if_pos hw]

theorem readLexeme_quote {cs value : List Char} {n : Nat} (h : readString cs = .ok (value, n)) :
    readLexeme '"' cs = .ok (.string (String.ofList value), n) := by
  rw [readLexeme.eq_def, if_neg (by decide), if_neg (by decide), if_neg (by decide), if_pos rfl, h]

theorem readLexeme_symbol {s : Symbol} {c : Char} {cs : List Char} (h : s.text.toList = c :: cs)
    (rest : List Char) : readLexeme c (cs ++ rest) = .ok (.symbol s, cs.length) := by
  cases s <;> cases h <;> rfl

theorem readString_append_of_eq_ok {cs value : List Char}
    (h : readString cs = .ok (value, cs.length)) (rest : List Char) :
    readString (cs ++ rest) = .ok (value, cs.length) := by
  obtain ⟨written, tail, hwritten, rfl, hlength⟩ := readString_eq_ok_iff.1 h
  rw [List.append_assoc, List.cons_append, hwritten.readString_append, hlength]

/-- A run of characters of a class may become longer with more text behind it. -/
theorem takeWhile_append_run {P : Char → Bool} {cs : List Char} (hcs : ∀ c ∈ cs, P c)
    (rest : List Char) :
    cs.length ≤ ((cs ++ rest).takeWhile P).length ∧
      (((cs ++ rest).takeWhile P).length = cs.length → (cs ++ rest).takeWhile P = cs) := by
  rw [List.takeWhile_append_of_pos hcs, List.length_append]
  refine ⟨Nat.le_add_right .., fun hlength => ?_⟩
  have hnone : rest.takeWhile P = [] := List.eq_nil_of_length_eq_zero (by omega)
  rw [hnone, List.append_nil]

/-- **No longer lexeme is missed**: what is read from a text that starts with a lexeme is at least
as long as that, and if it is no longer, it is what the lexeme spells. -/
theorem IsLexeme.readLexeme_append {kind : Token.Kind} {c : Char} {cs : List Char}
    (h : IsLexeme kind (c :: cs)) (rest : List Char) :
    ∃ kind' n, readLexeme c (cs ++ rest) = .ok (kind', n) ∧ cs.length ≤ n ∧
      (n = cs.length → kind' = kind) := by
  generalize hl : c :: cs = lexeme at h
  cases h with
  | newline =>
    cases hl
    exact ⟨_, 0, rfl, Nat.le_refl _, fun _ => rfl⟩
  | number hne hd =>
    subst hl
    obtain ⟨hc, hcs⟩ := List.forall_mem_cons.1 hd
    obtain ⟨hle, hrun⟩ := takeWhile_append_run hcs rest
    exact ⟨_, _, readLexeme_of_isDigit hc _, hle, fun hn => by rw [hrun hn]⟩
  | word hw =>
    cases hl
    obtain ⟨hd, hw⟩ := isWord_iff.1 hw
    obtain ⟨hc, hcs⟩ := List.forall_mem_cons.1 hw
    obtain ⟨hle, hrun⟩ := takeWhile_append_run hcs rest
    exact ⟨_, _, readLexeme_of_isWordChar hd hc _, hle, fun hn => by rw [hrun hn]⟩
  | string h =>
    cases hl
    exact ⟨_, _, readLexeme_quote (readString_append_of_eq_ok h rest), Nat.le_refl _, fun _ => rfl⟩
  | symbol s => exact ⟨_, _, readLexeme_symbol hl.symm rest, Nat.le_refl _, fun _ => rfl⟩

/-- A lexeme is of one kind. -/
theorem IsLexeme.kind_unique {kind kind' : Token.Kind} {lexeme : List Char}
    (h : IsLexeme kind lexeme) (h' : IsLexeme kind' lexeme) : kind = kind' := by
  obtain ⟨c, cs, rfl⟩ := List.exists_cons_of_ne_nil h.ne_nil
  obtain ⟨k, n, hread, hn, hkind⟩ := h.readLexeme_append []
  obtain ⟨k', n', hread', -, hkind'⟩ := h'.readLexeme_append []
  rw [hread] at hread'
  cases hread'
  have hle := (readLexeme_sound hread).1
  rw [List.append_nil] at hle
  have hlength : n = cs.length := Nat.le_antisymm hle hn
  rw [← hkind hlength, ← hkind' hlength]

theorem not_prefix_of_readLexeme_eq_error {c : Char} {cs : List Char} {e : LexicalError}
    (h : readLexeme c cs = .error e) {kind : Token.Kind} {lexeme : List Char}
    (hl : IsLexeme kind lexeme) : ¬ lexeme <+: c :: cs := by
  obtain ⟨d, ds, rfl⟩ := List.exists_cons_of_ne_nil hl.ne_nil
  rintro ⟨rest, hrest⟩
  obtain ⟨rfl, rfl⟩ := List.cons.inj hrest
  obtain ⟨kind', n, hread, -⟩ := hl.readLexeme_append rest
  cases h.symm.trans hread

/-- **Why no lexeme can be read**: the text starts with a literal that is spoilt, or with a
character that starts no lexeme. -/
theorem readLexeme_eq_error {c : Char} {cs : List Char} {e : LexicalError}
    (h : readLexeme c cs = .error e) :
    (c = '"' ∧ ∃ e', Spoilt cs e' ∧ e = { e' with offset := 1 + e'.offset }) ∨
      e = ⟨.unexpectedCharacter c, 0⟩ := by
  unfold readLexeme at h
  split at h
  · cases h
  split at h
  · cases h
  split at h
  · cases h
  split at h
  · rename_i hc
    split at h
    · cases h
    · rename_i e' hread
      cases h
      exact .inl ⟨hc, e', readString_eq_error hread, rfl⟩
  split at h
  · cases h
  · cases h
  · cases h
    exact .inr rfl

end Scriptlet
