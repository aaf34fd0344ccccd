import Mathlib
import Scriptlet.Proofs.Token.Cursor
import Scriptlet.Proofs.Token.Separated

/-!
# A cursor keeps track of the text

Behind a stretch of text, the offset of a cursor should be the number of bytes of that stretch, and
its line and column those of the place behind it. Every rule of a scanner that starts on such a
cursor ends on one, though it moves the three numbers by itself: bytes that are skipped are whole
characters of one line, and each line end is passed as such. So whatever is cut out is made of whole
characters, and it is the lexeme that is read from the front of the rest.

Hence a scan with a cursor has the tokens, the spans and the errors of `scan`.

## Main definitions

* `IsByteClass` — bytes that tell the characters of a class
* `ScanCursor.behind` — the cursor behind a stretch of text
* `Scanner.made` — what a scanner should make of a lexeme

## Main results

* `Scanner.finish_behind`, `Scanner.skipWhile_behind` — how rules and loops end
* `Scanner.stringRest_behind`, `Scanner.token_behind` — literals and tokens, scanned with a cursor
* `Scanner.tokens_eq_scan` — a scan with a cursor is the scan of the text
-/

namespace Scriptlet

/-! ### Classes of bytes -/

/-- Bytes that tell the characters of a class: each is a whole character, and no line end. -/
structure IsByteClass (p : UInt8 → Bool) (q : Char → Bool) : Prop where
  lead (c : Char) : p (leadByte c) = q c
  size {c : Char} (h : q c) : c.utf8Size = 1
  no_newline : ¬ q '\n'

theorem IsByteClass.of_low {p : UInt8 → Bool} {q : Char → Bool}
    (hlow : ∀ n < 128, p (.ofNat n) = q (.ofNat n)) (hhigh : ∀ b, 128 ≤ b → p b = false)
    (hsize : ∀ c : Char, q c → c.utf8Size = 1) (hn : ¬ q '\n') : IsByteClass p q where
  lead := apply_leadByte hlow hhigh fun c hc => Bool.eq_false_iff.2 fun h => hc (hsize c h)
  size := hsize _
  no_newline := hn

theorem isByteClass_isBlank : IsByteClass isBlankByte isBlank := by
  refine .of_low (by decide) (by decide +kernel) (fun c hc => ?_) (by decide)
  have hblank : c = ' ' ∨ c = '\t' ∨ c = '\r' := by simpa [isBlank, or_assoc] using hc
  rcases hblank with rfl | rfl | rfl <;> rfl

theorem isByteClass_isDigit : IsByteClass isDigitByte Char.isDigit := by
  refine .of_low (by decide) (by decide +kernel) (fun c hc => ?_) (by decide)
  have hle : c.toNat ≤ 57 := (Char.isDigit_iff_toNat.1 hc).2
  exact utf8Size_eq_one_iff_toNat.2 (Nat.lt_of_le_of_lt hle (by decide))

theorem isByteClass_isWordChar : IsByteClass isWordByte isWordChar := by
  refine .of_low (by decide) (by decide +kernel) (fun c hc => ?_) (by decide)
  have hletter {z : Char} (hz : z.toNat < 128) (hle : c ≤ z) : c.utf8Size = 1 :=
    utf8Size_eq_one_iff_toNat.2 (Nat.lt_of_le_of_lt (UInt32.le_iff_toNat_le.1 hle) hz)
  obtain (⟨-, hle⟩ | ⟨-, hle⟩ | rfl) | hdigit := isWordChar_iff.1 hc
  · exact hletter (by decide) hle
  · exact hletter (by decide) hle
  · rfl
  · exact isByteClass_isDigit.size hdigit

theorem Symbol.utf8Size_of_ofChar? {c : Char} {s : Symbol} (h : ofChar? c = some s) :
    c.utf8Size = 1 := by
  unfold ofChar? at h
  split at h <;> first | rfl | cases h

/-- The tokens of one byte are those of one character. -/
theorem ofByte?_leadByte (c : Char) : Token.Kind.ofByte? (leadByte c) =
    if c = '\n' then some .newline else (Symbol.ofChar? c).map .symbol := by
  refine apply_leadByte (f := Token.Kind.ofByte?) (a := none)
    (g := fun c => if c = '\n' then some .newline else (Symbol.ofChar? c).map .symbol)
    (by decide) (by decide +kernel) (fun c hc => ?_) c
  have hsymbol : Symbol.ofChar? c = none :=
    Option.eq_none_iff_forall_ne_some.2 fun s hs => hc (Symbol.utf8Size_of_ofChar? hs)
  have hnewline : c ≠ '\n' := by
    rintro rfl
    exact hc rfl
  rw [if_neg hnewline, hsymbol]
  rfl

/-! ### Cursors behind a stretch of text -/

namespace ScanCursor

/-- The cursor behind a stretch of text. -/
def behind (before : List Char) : ScanCursor :=
  let position := (Place.first.advanceAll before).position
  ⟨byteCount before, position.line, position.column⟩

theorem behind_nil : behind [] = start := rfl

/-- Bytes of one line are skipped. -/
theorem behind_append {cs : List Char} (h : '\n' ∉ cs) (before : List Char) :
    behind (before ++ cs) = (behind before).skip (byteCount cs) := by
  rw [behind, Place.advanceAll_append, Place.advanceAll_of_no_newline h, byteCount_append]
  simp only [behind, skip, Place.position, UInt32.ofNat_add]

/-- A character is passed, whatever it is. -/
theorem behind_concat (before : List Char) (c : Char) :
    behind (before ++ [c]) = (behind before).pass c := by
  rw [pass]
  split
  · rename_i hc
    subst hc
    rw [behind, Place.advanceAll_append, byteCount_append]
    simp [behind, Place.position, Place.advance, UInt32.ofNat_add]
  · rename_i hc
    rw [behind_append (List.mem_singleton.not.2 (Ne.symm hc))]
    rfl

theorem behind_singleton {c : Char} (hc : c.utf8Size = 1) (hn : c ≠ '\n') (before : List Char) :
    behind (before ++ [c]) = (behind before).skip 1 := by
  rw [behind_append (List.mem_singleton.not.2 (Ne.symm hn)), byteCount_cons, byteCount_nil, hc]

theorem position_behind_append (before cs : List Char) :
    (behind (before ++ cs)).position =
      ((Place.first.advanceAll before).advanceAll cs).position := by
  rw [behind, Place.advanceAll_append]
  rfl

end ScanCursor

/-- The last column of a span, computed in 32 bits. -/
theorem Place.span_eq_of_lt (p : Place) {bytes : Nat} (h : bytes < 2 ^ 32) :
    p.span bytes = ⟨p.position, ⟨p.position.line, p.position.column +
      if UInt32.ofNat bytes = 0 then 0 else .ofNat bytes - 1⟩⟩ := by
  rw [span]
  cases bytes with
  | zero => simp [position]
  | succ n =>
    have hne : UInt32.ofNat (n + 1) ≠ 0 := by
      rw [Ne, ← UInt32.toNat_inj, UInt32.toNat_ofNat', Nat.mod_eq_of_lt h]
      exact Nat.succ_ne_zero n
    have hlast : UInt32.ofNat (n + 1) - 1 = .ofNat n := by
      rw [UInt32.ofNat_add]
      exact add_sub_cancel_right _ _
    have hn : max (n + 1) 1 - 1 = n := by omega
    rw [if_neg hne, hlast, hn, UInt32.ofNat_add]
    rfl

/-! ### What is seen and cut out -/

open ScanCursor

namespace Scanner

/-- A lexeme can be measured in 32 bits, and there are rounds enough for every loop. -/
structure Fit (s : Scanner) : Prop where
  size_lt : byteCount s.text < 2 ^ 32
  rounds_gt : s.text.length < s.rounds

/-- What is to be made of the lexeme that is read from the front of the rest of a text, or of the
fault that is found there. -/
def made (before rest : List Char) :
    Except LexicalError (Token.Kind × Nat) → Except ScanError (Token × ScanCursor)
  | .ok (kind, length) =>
    let lexeme := rest.take (length + 1)
    .ok (.ofLexeme (Place.first.advanceAll before) kind lexeme, behind (before ++ lexeme))
  | .error e => .error (e.locate (Place.first.advanceAll before) rest)

variable {s : Scanner} {before rest : List Char} {c d : Char} {cs : List Char}

theorem Fit.length_lt (hs : s.Fit) (htext : s.text = before ++ rest) : rest.length < s.rounds := by
  have hrounds := hs.rounds_gt
  rw [htext, List.length_append] at hrounds
  omega

theorem byte?_behind (htext : s.text = before ++ rest) :
    s.byte? (behind before).offset = rest.head?.map leadByte := by
  rw [byte?, htext]
  exact getElem?_utf8_append before rest

/-- A character of one byte is followed by the first byte of the next one. -/
theorem byte?_behind_succ (hc : c.utf8Size = 1) (htext : s.text = before ++ c :: cs) :
    s.byte? ((behind before).offset + 1) = cs.head?.map leadByte := by
  have hoffset : (behind before).offset + 1 = (behind (before ++ [c])).offset := by
    rw [behind, behind, byteCount_append, byteCount_cons, byteCount_nil, hc]
  rw [hoffset]
  exact byte?_behind (by simpa using htext)

theorem map_leadByte_eq_some (hd : d.utf8Size = 1) :
    rest.head?.map leadByte = some d.toUInt8 ↔ ∃ cs, rest = d :: cs := by
  cases rest with
  | nil => simp
  | cons c cs => simp [leadByte_eq_iff hd]

theorem sees_behind (hc : c.utf8Size = 1) (hd : d.utf8Size = 1) (htext : s.text = before ++ rest) :
    s.sees (behind before) c d ↔ ∃ cs, rest = c :: d :: cs := by
  rw [sees, byte?_behind htext, Bool.and_eq_true, decide_eq_true_iff, decide_eq_true_iff,
    map_leadByte_eq_some hc]
  constructor
  · rintro ⟨⟨cs, rfl⟩, hsecond⟩
    rw [byte?_behind_succ hc htext, map_leadByte_eq_some hd] at hsecond
    obtain ⟨ds, rfl⟩ := hsecond
    exact ⟨ds, rfl⟩
  · rintro ⟨cs, rfl⟩
    rw [byte?_behind_succ hc htext, map_leadByte_eq_some hd]
    exact ⟨⟨_, rfl⟩, cs, rfl⟩

theorem peek_behind (htext : s.text = before ++ rest) :
    s.peek (behind before) = some rest.head? := by
  rw [peek, htext]
  exact congrArg (Option.bind · _) (splitBytes?_append before rest)

theorem atEnd_behind (htext : s.text = before ++ rest) :
    (utf8 s.text).length ≤ (behind before).offset ↔ rest = [] := by
  rw [length_utf8, htext, byteCount_append]
  constructor
  · intro (hle : byteCount before + byteCount rest ≤ byteCount before)
    exact eq_nil_of_byteCount (by omega)
  · rintro rfl
    exact Nat.le_refl _

/-- What stands between two cursors is made of whole characters. -/
theorem sliceBytes?_behind {lexeme after : List Char}
    (htext : s.text = before ++ (lexeme ++ after)) :
    sliceBytes? s.text (behind before).offset (behind (before ++ lexeme)).offset = some lexeme :=
  sliceBytes?_eq_some_iff.2 ⟨before, after, htext, rfl, rfl⟩

/-- **A rule ends** with the token of what it has passed over. -/
theorem finish_behind (hs : s.Fit) (htext : s.text = before ++ rest) (kind : Token.Kind) (n : Nat) :
    s.finish kind (behind before) (behind (before ++ rest.take (n + 1))) =
      some (made before rest (.ok (kind, n))) := by
  have hparts : s.text = before ++ (rest.take (n + 1) ++ rest.drop (n + 1)) := by
    rw [List.take_append_drop, htext]
  have hbytes : (behind (before ++ rest.take (n + 1))).offset - (behind before).offset =
      byteCount (rest.take (n + 1)) := by
    rw [behind, behind, byteCount_append, Nat.add_sub_cancel_left]
  have hlt : byteCount (rest.take (n + 1)) < 2 ^ 32 := by
    have hsize := hs.size_lt
    rw [hparts, byteCount_append, byteCount_append] at hsize
    omega
  rw [finish, sliceBytes?_behind hparts, hbytes, made, Token.ofLexeme, Place.span_eq_of_lt _ hlt]
  rfl

/-- **A loop passes over the characters of its class.** -/
theorem skipWhile_behind {p : UInt8 → Bool} {q : Char → Bool} (hp : IsByteClass p q) {rounds : Nat}
    (hrounds : rest.length < rounds) (htext : s.text = before ++ rest) :
    s.skipWhile p rounds (behind before) = some (behind (before ++ rest.takeWhile q)) := by
  induction rounds generalizing before rest with
  | zero => exact absurd hrounds (Nat.not_lt_zero _)
  | succ rounds ih =>
    rw [skipWhile, byte?_behind htext]
    cases rest with
    | nil => rw [List.takeWhile_nil, List.append_nil]; rfl
    | cons c cs =>
      rw [List.head?_cons, Option.map_some, Option.any_some, hp.lead]
      by_cases hc : q c
      · have hn : c ≠ '\n' := fun hn => hp.no_newline (hn ▸ hc)
        rw [if_pos hc, ← behind_singleton (hp.size hc) hn,
          ih (Nat.lt_of_succ_lt_succ hrounds) (by simpa using htext),
          List.takeWhile_cons_of_pos hc, List.append_assoc]
        rfl
      · rw [if_neg hc, List.takeWhile_cons_of_neg hc, List.append_nil]

/-! ### String literals -/

/-- What a literal is, by its first characters, what they stand for, and what is read from its
rest. -/
def literal (value : List Char) (length : Nat) :
    Except LexicalError (List Char × Nat) → Except LexicalError (Token.Kind × Nat)
  | .ok (more, n) => .ok (.string (String.ofList (value ++ more)), length + n)
  | .error e => .error { e with offset := 1 + length + e.offset }

theorem literal_putBefore (value : List Char) (length n : Nat) (c : Char)
    (read : Except LexicalError (List Char × Nat)) :
    literal value length (putBefore n c read) = literal (value ++ [c]) (length + n) read := by
  cases read with
  | ok out =>
    simp only [putBefore, literal, List.append_assoc, List.singleton_append, Nat.add_assoc]
  | error e => simp only [putBefore, literal, Nat.add_assoc]

theorem readLexeme_quote_eq (cs : List Char) :
    readLexeme '"' cs = literal [] 0 (readString cs) := by
  rw [readLexeme.eq_def, if_neg (by decide), if_neg (by decide), if_neg (by decide), if_pos rfl]
  cases readString cs with
  | ok out =>
    rw [literal, Nat.zero_add]
    rfl
  | error e => rfl

theorem readString_newline (cs : List Char) :
    readString ('\n' :: cs) = .error ⟨.unterminatedString, 0⟩ := by
  unfold readString
  rfl

/-! One round of the loop, by the character at the cursor. -/

section Round

variable {first cursor : ScanCursor}

theorem stringRest_lineEnd (hpeek : s.peek cursor = some none ∨ s.peek cursor = some (some '\n'))
    (rounds : Nat) (value : List Char) : s.stringRest first (rounds + 1) value cursor =
      some (.error ⟨.unterminatedString, ⟨first.position, cursor.position⟩⟩) := by
  rcases hpeek with hpeek | hpeek <;> rw [stringRest, hpeek] <;> rfl

theorem stringRest_quote (hpeek : s.peek cursor = some (some '"')) (rounds : Nat)
    (value : List Char) : s.stringRest first (rounds + 1) value cursor =
      s.finish (.string (String.ofList value)) first (cursor.skip 1) := by
  rw [stringRest, hpeek]
  rfl

theorem stringRest_passOver (hpeek : s.peek cursor = some (some '\\'))
    (hend : s.peek (cursor.skip 1) = some none ∨ s.peek (cursor.skip 1) = some (some '\n'))
    (rounds : Nat) (value : List Char) : s.stringRest first (rounds + 1) value cursor =
      s.stringRest first rounds value (cursor.skip 1) := by
  rw [stringRest, hpeek]
  rcases hend with hend | hend <;> simp only [Option.bind_eq_bind, Option.bind_some, hend]

theorem stringRest_escape (hpeek : s.peek cursor = some (some '\\'))
    (hescaped : s.peek (cursor.skip 1) = some (some d)) (hd : d ≠ '\n') (rounds : Nat)
    (value : List Char) : s.stringRest first (rounds + 1) value cursor =
      match unescape? d with
      | some e => s.stringRest first rounds (value ++ [e]) ((cursor.skip 1).pass d)
      | none => some (.error ⟨.invalidEscape d, ⟨cursor.position, (cursor.skip 1).position⟩⟩) := by
  rw [stringRest, hpeek]
  simp only [Option.bind_eq_bind, Option.bind_some, hescaped]
  cases unescape? d <;> rfl

theorem stringRest_other (hpeek : s.peek cursor = some (some d)) (hn : d ≠ '\n') (hq : d ≠ '"')
    (he : d ≠ '\\') (rounds : Nat) (value : List Char) :
    s.stringRest first (rounds + 1) value cursor =
      s.stringRest first rounds (value ++ [d]) (cursor.pass d) := by
  rw [stringRest, hpeek]
  simp only [Option.bind_eq_bind, Option.bind_some]

end Round

/-! The loop, behind a quote and some characters of the literal. -/

section Literal

variable {passed : List Char}

theorem peek_literal (htext : s.text = before ++ '"' :: (passed ++ rest)) :
    s.peek (behind (before ++ '"' :: passed)) = some rest.head? :=
  peek_behind (by simpa using htext)

theorem pass_literal (before passed : List Char) (c : Char) :
    (behind (before ++ '"' :: passed)).pass c = behind (before ++ '"' :: (passed ++ [c])) := by
  rw [← behind_concat, List.append_assoc]
  rfl

theorem take_literal (passed rest : List Char) (n : Nat) :
    ('"' :: (passed ++ rest)).take (1 + passed.length + n) = '"' :: (passed ++ rest.take n) := by
  rw [Nat.add_assoc, Nat.add_comm, List.take_succ_cons, List.take_length_add_append]

theorem made_unterminated (value : List Char) (n : Nat) :
    made before ('"' :: (passed ++ rest))
        (literal value passed.length (.error ⟨.unterminatedString, n⟩)) =
      .error ⟨.unterminatedString, ⟨(behind before).position,
        (behind (before ++ '"' :: (passed ++ rest.take n))).position⟩⟩ := by
  rw [position_behind_append, ← take_literal]
  rfl

theorem made_invalidEscape (value : List Char) (n : Nat) :
    made before ('"' :: (passed ++ rest))
        (literal value passed.length (.error ⟨.invalidEscape d, n⟩)) =
      .error ⟨.invalidEscape d, ⟨(behind (before ++ '"' :: (passed ++ rest.take n))).position,
        (behind (before ++ ('"' :: (passed ++ rest.take n) ++ ['\\']))).position⟩⟩ := by
  rw [position_behind_append, position_behind_append, Place.advanceAll_append, ← take_literal]
  rfl

/-- **A literal is scanned as it is read**, from behind any of its characters. -/
theorem stringRest_behind (hs : s.Fit) {rounds : Nat} (passed value : List Char)
    (hrounds : rest.length < rounds) (htext : s.text = before ++ '"' :: (passed ++ rest)) :
    s.stringRest (behind before) rounds value (behind (before ++ '"' :: passed)) =
      some (made before ('"' :: (passed ++ rest))
        (literal value passed.length (readString rest))) := by
  induction rounds generalizing rest passed value with
  | zero => exact absurd hrounds (Nat.not_lt_zero _)
  | succ rounds ih =>
    -- how the loop goes on when it has passed over some more characters
    have hmore (more : List Char) {cs : List Char} (hcs : cs.length < rounds) (value : List Char)
        (htext : s.text = before ++ '"' :: (passed ++ (more ++ cs))) :
        s.stringRest (behind before) rounds value (behind (before ++ '"' :: (passed ++ more))) =
          some (made before ('"' :: (passed ++ (more ++ cs)))
            (literal value (passed.length + more.length) (readString cs))) := by
      rw [← List.append_assoc] at htext
      rw [ih _ value hcs htext, List.append_assoc, List.length_append]
    have hpeek := peek_literal htext
    have hskip : (behind (before ++ '"' :: passed)).skip 1 =
        behind (before ++ '"' :: (passed ++ ['\\'])) := pass_literal before passed '\\'
    have hescaped {cs : List Char} (h : rest = '\\' :: cs) :
        s.peek ((behind (before ++ '"' :: passed)).skip 1) = some cs.head? := by
      rw [hskip]
      refine peek_literal ?_
      rw [htext, h, List.append_assoc]
      rfl
    fun_cases readString rest with
    | case1 =>
      rw [stringRest_lineEnd (.inl hpeek), made_unterminated, List.take_zero, List.append_nil]
    | case2 cs =>
      rw [stringRest_lineEnd (.inr hpeek), made_unterminated, List.take_zero, List.append_nil]
    | case3 cs =>
      have hlast : (behind (before ++ '"' :: passed)).skip 1 =
          behind (before ++ ('"' :: (passed ++ '"' :: cs)).take (passed.length + 1 + 1)) := by
        rw [List.take_succ_cons, List.take_length_add_append]
        exact pass_literal before passed '"'
      rw [stringRest_quote hpeek, hlast, literal, List.append_nil]
      exact finish_behind hs htext _ _
    | case4 =>
      rw [stringRest_passOver hpeek (.inl (hescaped rfl)), hskip,
        hmore ['\\'] (Nat.lt_of_succ_lt_succ hrounds) value htext]
      rfl
    | case5 ds =>
      rw [stringRest_passOver hpeek (.inr (hescaped rfl)), hskip,
        hmore ['\\'] (Nat.lt_of_succ_lt_succ hrounds) value htext, readString_newline]
      rfl
    | case6 d ds hd e he =>
      have hds : ds.length < rounds := Nat.lt_of_succ_lt (Nat.lt_of_succ_lt_succ hrounds)
      rw [stringRest_escape hpeek (hescaped rfl) hd, he, hskip, pass_literal, List.append_assoc,
        literal_putBefore]
      exact hmore ['\\', d] hds _ htext
    | case7 d ds hd he =>
      rw [stringRest_escape hpeek (hescaped rfl) hd, he, hskip, made_invalidEscape,
        List.take_zero, List.append_nil]
      rfl
    | case8 d ds hn hq he =>
      rw [stringRest_other hpeek hn hq he, pass_literal, literal_putBefore]
      exact hmore [d] (Nat.lt_of_succ_lt_succ hrounds) _ htext

end Literal

theorem string_behind (hs : s.Fit) (htext : s.text = before ++ '"' :: cs) :
    s.string (behind before) = some (made before ('"' :: cs) (readLexeme '"' cs)) := by
  have hcs : cs.length < s.rounds := Nat.lt_of_succ_lt (hs.length_lt htext)
  have hquote : '"' ≠ '\n' := by decide
  rw [string, ← behind_singleton rfl hquote, readLexeme_quote_eq]
  exact stringRest_behind hs [] [] hcs htext

/-! ### Other rules -/

/-- A run of characters of a class, from the first one on. -/
theorem exists_skipWhile {p : UInt8 → Bool} {q : Char → Bool} (hs : s.Fit) (hp : IsByteClass p q)
    (hc : q c) (htext : s.text = before ++ c :: cs) :
    ∃ last, s.skipWhile p s.rounds (behind before) = some last ∧
      last = behind (before ++ (c :: cs).take ((cs.takeWhile q).length + 1)) ∧
      sliceBytes? s.text (behind before).offset last.offset = some (c :: cs.takeWhile q) := by
  have hparts : s.text = before ++ ((c :: cs.takeWhile q) ++ cs.dropWhile q) := by
    rw [htext, List.cons_append, List.takeWhile_append_dropWhile]
  refine ⟨_, skipWhile_behind hp (hs.length_lt htext) htext, ?_, ?_⟩
  · rw [List.take_succ_cons, take_length_takeWhile, List.takeWhile_cons_of_pos hc]
  · rw [List.takeWhile_cons_of_pos hc]
    exact sliceBytes?_behind hparts

theorem number_behind (hs : s.Fit) (hc : c.isDigit) (htext : s.text = before ++ c :: cs) :
    s.number (behind before) = some (made before (c :: cs) (readLexeme c cs)) := by
  obtain ⟨last, hskip, hlast, hslice⟩ := exists_skipWhile hs isByteClass_isDigit hc htext
  have hnumber : wholeNumber? (c :: cs.takeWhile Char.isDigit) =
      some (Float.ofNat (digitsValue (c :: cs.takeWhile Char.isDigit))) := by
    refine if_pos ⟨List.cons_ne_nil _ _, ?_⟩
    rw [List.all_cons, hc, List.all_takeWhile]
    rfl
  rw [number, hskip, readLexeme_of_isDigit hc, ← finish_behind hs htext, ← hlast]
  simp only [Option.bind_eq_bind, Option.bind_some, hslice, hnumber]

theorem word_behind (hs : s.Fit) (hd : ¬ c.isDigit) (hc : isWordChar c)
    (htext : s.text = before ++ c :: cs) :
    s.word (behind before) = some (made before (c :: cs) (readLexeme c cs)) := by
  obtain ⟨last, hskip, hlast, hslice⟩ := exists_skipWhile hs isByteClass_isWordChar hc htext
  rw [word, hskip, readLexeme_of_isWordChar hd hc, ← finish_behind hs htext, ← hlast]
  simp only [Option.bind_eq_bind, Option.bind_some, hslice]

/-- A symbol is as long as its text. -/
theorem symbol_behind (hs : s.Fit) {symbol : Symbol} (c : Char) (cs ds : List Char)
    (hn : '\n' ∉ c :: cs) (hsymbol : symbol.text.toList = c :: cs)
    (htext : s.text = before ++ c :: (cs ++ ds)) :
    s.finish (.symbol symbol) (behind before) ((behind before).skip (byteCount (c :: cs))) =
      some (made before (c :: (cs ++ ds)) (readLexeme c (cs ++ ds))) := by
  have htake : (c :: (cs ++ ds)).take (cs.length + 1) = c :: cs := by
    rw [List.take_succ_cons, List.take_left]
  rw [readLexeme_symbol hsymbol, ← finish_behind hs htext, htake, behind_append hn]

/-- No rule applies to a character that starts no lexeme. -/
theorem unexpected_behind (htext : s.text = before ++ c :: cs) :
    s.unexpected (behind before) =
      some (made before (c :: cs) (.error ⟨.unexpectedCharacter c, 0⟩)) := by
  rw [unexpected, peek_behind htext]
  rfl

theorem readLexeme_unexpected (hn : c ≠ '\n') (hd : ¬ c.isDigit) (hw : ¬ isWordChar c)
    (hq : c ≠ '"') (hone : Symbol.ofChar? c = none)
    (htwo : ∀ ds, cs = '=' :: ds → Symbol.beforeEquals? c = none) :
    readLexeme c cs = .error ⟨.unexpectedCharacter c, 0⟩ := by
  rw [readLexeme.eq_def, if_neg hn, if_neg hd, if_neg hw, if_neg hq, hone]
  split
  · contradiction
  · rename_i hsymbol
    cases hsymbol.symm.trans (htwo _ rfl)
  · rfl

theorem Symbol.beforeEquals?_eq_none {c : Char} (hne : c ≠ '!') (heq : c ≠ '=') (hcolon : c ≠ ':') :
    Symbol.beforeEquals? c = none := by
  unfold Symbol.beforeEquals?
  split <;> first | rfl | contradiction

/-- **A token is scanned as its lexeme is read**, by the rule that applies. -/
theorem token_behind (hs : s.Fit) (htext : s.text = before ++ c :: cs) :
    s.token (behind before) = some (made before (c :: cs) (readLexeme c cs)) := by
  have hsees {x y : Char} (hx : x.utf8Size = 1) (hy : y.utf8Size = 1) :
      s.sees (behind before) x y ↔ ∃ ds, c :: cs = x :: y :: ds := sees_behind hx hy htext
  rw [token, byte?_behind htext, List.head?_cons, Option.map_some, Option.bind_some,
    ofByte?_leadByte]
  simp only [Option.any_some, isByteClass_isDigit.lead, isByteClass_isWordChar.lead,
    Option.some.injEq, leadByte_eq_iff (rfl : '"'.utf8Size = 1)]
  by_cases hn : c = '\n'
  · subst hn
    rw [if_pos rfl, ← behind_concat]
    rfl
  rw [if_neg hn]
  cases hone : Symbol.ofChar? c with
  | some symbol =>
    have hsize : byteCount [c] = 1 := Symbol.utf8Size_of_ofChar? hone
    have htoken := symbol_behind hs c [] cs (List.mem_singleton.not.2 (Ne.symm hn))
      (Symbol.toList_text_of_ofChar? hone) htext
    rwa [hsize] at htoken
  | none =>
    simp only [Option.map_none]
    split_ifs with hne heq hdigit hword hcolon hquote
    · obtain ⟨ds, hds⟩ := (hsees rfl rfl).1 hne
      cases hds
      exact symbol_behind hs '!' ['='] ds (by decide) rfl htext
    · obtain ⟨ds, hds⟩ := (hsees rfl rfl).1 heq
      cases hds
      exact symbol_behind hs '=' ['='] ds (by decide) rfl htext
    · exact number_behind hs hdigit htext
    · exact word_behind hs hdigit hword htext
    · obtain ⟨ds, hds⟩ := (hsees rfl rfl).1 hcolon
      cases hds
      exact symbol_behind hs ':' ['='] ds (by decide) rfl htext
    · subst hquote
      exact string_behind hs htext
    · rw [unexpected_behind htext, readLexeme_unexpected hn hdigit hword hquote hone]
      rintro ds rfl
      refine Symbol.beforeEquals?_eq_none ?_ ?_ ?_
      · exact fun hc => hne ((hsees rfl rfl).2 ⟨ds, by rw [hc]⟩)
      · exact fun hc => heq ((hsees rfl rfl).2 ⟨ds, by rw [hc]⟩)
      · exact fun hc => hcolon ((hsees rfl rfl).2 ⟨ds, by rw [hc]⟩)

/-! ### The whole text -/

/-- Blanks are passed over, up to the next token or the end. -/
theorem exists_skipBlanks (hs : s.Fit) (htext : s.text = before ++ rest) :
    ∃ blanks rest', rest = blanks ++ rest' ∧ Blank blanks ∧
      (∀ c ∈ rest'.head?, ¬ isBlank c) ∧
      s.skipWhile isBlankByte s.rounds (behind before) = some (behind (before ++ blanks)) := by
  refine ⟨_, _, List.takeWhile_append_dropWhile.symm, List.all_eq_true.1 List.all_takeWhile, ?_,
    skipWhile_behind isByteClass_isBlank (hs.length_lt htext) htext⟩
  intro c hc
  have hhead := List.head?_dropWhile_not isBlank rest
  rw [Option.mem_def.1 hc] at hhead
  simpa using hhead

theorem tokensFrom_behind (hs : s.Fit) {rounds : Nat} (before : List Char) (earlier : List Token)
    (hrounds : rest.length < rounds) (htext : s.text = before ++ rest) :
    s.tokensFrom rounds earlier (behind before) =
      some ((scanFrom (Place.first.advanceAll before) rest).map (earlier ++ ·)) := by
  induction rounds generalizing before rest earlier with
  | zero => exact absurd hrounds (Nat.not_lt_zero _)
  | succ rounds ih =>
    obtain ⟨blanks, rest, rfl, hblanks, hhead, hskip⟩ := exists_skipBlanks hs htext
    rw [← List.append_assoc] at htext
    rw [tokensFrom, hskip, scanFrom_blanks hblanks, ← Place.advanceAll_append]
    simp only [Option.bind_eq_bind, Option.bind_some, atEnd_behind htext]
    cases rest with
    | nil =>
      rw [if_pos rfl, scanFrom]
      rfl
    | cons c cs =>
      have hc : ¬ isBlank c := hhead c rfl
      rw [if_neg (List.cons_ne_nil c cs), token_behind hs htext]
      cases hread : readLexeme c cs with
      | error e =>
        rw [scanFrom_of_error hc hread]
        rfl
      | ok out =>
        obtain ⟨kind, n⟩ := out
        have hcs : (cs.drop n).length < rounds := by
          simp only [List.length_append, List.length_cons, List.length_drop] at hrounds ⊢
          omega
        have hparts : s.text = before ++ blanks ++ (c :: cs.take n) ++ cs.drop n := by
          rw [htext, List.append_assoc _ (c :: _), List.cons_append, List.take_append_drop]
        rw [scanFrom_of_ok hc hread, ← Place.advanceAll_append]
        refine (ih _ _ hcs hparts).trans (congrArg some ?_)
        cases scanFrom _ (cs.drop n) with
        | error e => rfl
        | ok ts => exact congrArg Except.ok (List.append_assoc _ _ _)

/-- **A scan with a cursor is the scan of the text.** The three numbers of the cursor stay in step
with the text, everything that is cut out is made of whole characters, and no loop needs more rounds
than there are characters, and one. -/
theorem tokens_eq_scan {text : String} {rounds : Nat} (hsize : text.utf8ByteSize < 2 ^ 32)
    (hrounds : text.toList.length < rounds) :
    (Scanner.mk text.toList rounds).tokens = some (Scriptlet.scan text) := by
  have hs : Fit ⟨text.toList, rounds⟩ := ⟨by rwa [byteCount_toList], hrounds⟩
  rw [tokens, ← behind_nil, tokensFrom_behind hs [] [] hrounds rfl, Place.advanceAll_nil,
    Scriptlet.scan]
  cases scanFrom .first text.toList <;> rfl

end Scanner

end Scriptlet
