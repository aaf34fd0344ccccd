import Scriptlet.Proofs.Text.Quoted
import Scriptlet.Proofs.Token.Separated

/-!
# String literals and quoted texts

A text can be written as a string literal in many ways: most characters may stand for themselves,
and five of them may be escaped. However it is written, a scan finds the text again, and nothing
else is a literal of that text.

Quoted texts, as they are shown in messages, look like literals, but there are more escapes in them:
`\0`, and code points. A quoted text is a literal unless one of these occurs. The first one that
does spoils it, as the letter behind the backslash escapes nothing.

## Main definitions

* `Coded` — characters that are shown by an escape that literals do not have

## Main results

* `exists_contents` — every text can be written as a literal
* `contents_flatMap_quotedChar` — quoted texts that are literals
* `scan_of_invalidEscape` — where a literal is spoilt
* `scan_literal` — string literals are decoded exactly
-/

namespace Scriptlet

/-! ### Writing literals -/

/-- A character can be written in a literal, as it is or escaped. -/
theorem exists_item (c : Char) : ∃ written, Item written c := by
  by_cases he : ∃ d, (d, c) ∈ escapes
  · obtain ⟨d, hd⟩ := he
    exact ⟨_, .escape hd⟩
  · have hplain : ∀ d, (d, c) ∉ escapes := fun d hd => he ⟨d, hd⟩
    exact ⟨[c], .plain (fun h => hplain '"' (by simp [h, escapes]))
      (fun h => hplain '\\' (by simp [h, escapes])) fun h => hplain 'n' (by simp [h, escapes])⟩

/-- **Every text can be written as a literal.** -/
theorem exists_contents (value : List Char) : ∃ written, Contents written value := by
  induction value with
  | nil => exact ⟨[], .nil⟩
  | cons c cs ih =>
    obtain ⟨ws, hws⟩ := ih
    obtain ⟨written, hc⟩ := exists_item c
    exact ⟨_, .cons hc hws⟩

theorem Contents.no_newline {written value : List Char} (h : Contents written value) :
    '\n' ∉ written := by
  have hlexeme := spells_iff.1 (Spells.string h)
  intro hn
  exact hlexeme.no_newline (by simp) (by simp [hn])

/-- What stands between the quotes of a literal is what it is written with. -/
theorem contents_iff {written : List Char} {s : String} :
    Spells ('"' :: (written ++ ['"'])) (.string s) ↔ Contents written s.toList := by
  constructor
  · intro h
    generalize hl : '"' :: (written ++ ['"']) = lexeme at h
    cases h with
    | @string ws value h =>
      obtain rfl : written = ws := List.append_cancel_right (List.cons.inj hl).2
      rwa [String.toList_ofList]
  · intro h
    simpa using Spells.string h

/-! ### Escapes that literals do not have -/

/-- A character that a quoted text shows by an escape that literals do not have: as `\0`, or by its
code point. -/
def Coded (c : Char) : Prop := quotedChar c = ['\\', '0'] ∨ quotedChar c = codePointEscape c

/-- The other characters are shown as they may be written in a literal. -/
theorem item_quotedChar_iff {c : Char} : Item (quotedChar c) c ↔ ¬ Coded c := by
  constructor
  · rintro h (hzero | hcode)
    · exact h.append_ne zero_not_escaped (by rw [hzero, List.append_nil])
    · exact h.append_ne codePoint_not_escaped
        (by rw [hcode, codePointEscape_eq, List.append_nil])
  · rintro h
    obtain ⟨hzero, hcode⟩ := not_or.1 h
    generalize hw : quotedChar c = written at hzero hcode
    have hshown := shown_quotedChar c
    rw [hw] at hshown
    cases hshown with
    | item h => exact h
    | zero => exact absurd rfl hzero
    | codePoint => exact absurd rfl hcode

/-- **Quoted texts are literals** if no character of them is coded. -/
theorem contents_flatMap_quotedChar {cs : List Char} (h : ∀ c ∈ cs, ¬ Coded c) :
    Contents (cs.flatMap quotedChar) cs := by
  induction cs with
  | nil => exact .nil
  | cons c cs ih =>
    obtain ⟨hc, hcs⟩ := List.forall_mem_cons.1 h
    exact .cons (item_quotedChar_iff.2 hc) (ih hcs)

/-- The letter behind the backslash of a coded character escapes nothing in a literal. -/
theorem Coded.exists_letter {c : Char} (h : Coded c) :
    ∃ d ds, quotedChar c = '\\' :: d :: ds ∧ d ≠ '\n' ∧ ∀ e, (d, e) ∉ escapes := by
  rcases h with h | h
  · exact ⟨'0', [], h, by decide, zero_not_escaped⟩
  · exact ⟨'u', _, h.trans (codePointEscape_eq c), by decide, codePoint_not_escaped⟩

/-- The first coded character of a text that has one. -/
theorem exists_first_coded {cs : List Char} (h : ∃ c ∈ cs, Coded c) :
    ∃ before c after, cs = before ++ c :: after ∧ (∀ d ∈ before, ¬ Coded d) ∧ Coded c := by
  obtain ⟨c, hc, hcoded⟩ := h
  obtain ⟨before, after, rfl⟩ := List.append_of_mem hc
  induction before with
  | nil => exact ⟨[], c, after, rfl, List.forall_mem_nil _, hcoded⟩
  | cons d before ih =>
    by_cases hd : Coded d
    · exact ⟨[], d, _, rfl, List.forall_mem_nil _, hd⟩
    · obtain ⟨pre, e, post, hsplit, hpre, he⟩ := ih List.mem_append_cons_self
      exact ⟨d :: pre, e, post, by rw [List.cons_append, hsplit, List.cons_append],
        List.forall_mem_cons.2 ⟨hd, hpre⟩, he⟩

/-! ### Spoilt literals -/

theorem Contents.readString_spoilt {written value : List Char} (h : Contents written value)
    {d : Char} (hd : d ≠ '\n') (he : ∀ e, (d, e) ∉ escapes) (rest : List Char) :
    readString (written ++ '\\' :: d :: rest) = .error ⟨.invalidEscape d, written.length⟩ := by
  induction h with
  | nil =>
    have hnone : unescape? d = none :=
      Option.eq_none_iff_forall_ne_some.2 fun e hsome => he e (unescape?_eq_some_iff.1 hsome)
    rw [List.nil_append, readString.eq_def]
    simp [hd, hnone]
  | cons hi _ ih =>
    rw [List.append_assoc, hi.readString_append, ih, putBefore, List.length_append]

/-- **Where a literal is spoilt**: the backslash is blamed, and the column behind it. -/
theorem scan_of_invalidEscape {written value : List Char} (h : Contents written value) {d : Char}
    (hd : d ≠ '\n') (he : ∀ e, (d, e) ∉ escapes) (rest : List Char) :
    scan (String.ofList ('"' :: (written ++ '\\' :: d :: rest))) =
      .error ⟨.invalidEscape d, ⟨(Place.mk 1 (2 + byteCount written)).position,
        (Place.mk 1 (3 + byteCount written)).position⟩⟩ := by
  have hread : readLexeme '"' (written ++ '\\' :: d :: rest) =
      .error ⟨.invalidEscape d, 1 + written.length⟩ := by
    rw [readLexeme.eq_def]
    simp [h.readString_spoilt hd he, isWordChar]
  have hplace : Place.first.advanceAll ('"' :: written) = ⟨1, 2 + byteCount written⟩ :=
    Place.advanceAll_of_no_newline h.no_newline ⟨1, 2⟩
  have hnext : (Place.mk 1 (2 + byteCount written)).advance '\\' =
      ⟨1, 3 + byteCount written⟩ := by
    rw [Place.advance, if_neg (by decide)]
    show Place.mk 1 (2 + byteCount written + 1) = _
    rw [Nat.add_right_comm]
  rw [scan, String.toList_ofList, scanFrom_of_error (by decide) hread, LexicalError.locate,
    take_literal, hplace]
  simp only [hnext]

/-! ### Decoding -/

/-- **String literals are decoded exactly.** A text between quotes is scanned to the one token of a
string exactly if it is written as literals are: every character as it is, but for quotes,
backslashes and newlines, or escaped, if it can be. The lexeme is the text, and every string can be
written so.

A string as messages show it is read back unless it has characters that are coded. Otherwise the
scan fails with an invalid escape, at the backslash that shows the first of these. -/
theorem scan_literal :
    (∀ (written : List Char) (s : String), Contents written s.toList ↔ ∃ span stop,
      scan (String.ofList ('"' :: (written ++ ['"']))) =
        .ok [⟨.string s, String.ofList ('"' :: (written ++ ['"'])), span⟩, .endOfFile stop]) ∧
    (∀ s : String, ∃ written, Contents written s.toList) ∧
    ∀ s : String,
      ((∀ c ∈ s.toList, ¬ Coded c) → ∃ span stop, scan (Token.Kind.string s).text =
        .ok [⟨.string s, (Token.Kind.string s).text, span⟩, .endOfFile stop]) ∧
      ((∃ c ∈ s.toList, Coded c) → ∃ before c after,
        s.toList = before ++ c :: after ∧ (∀ d ∈ before, ¬ Coded d) ∧ Coded c ∧
        ∃ d ds e, quotedChar c = '\\' :: d :: ds ∧
          (Token.Kind.string s).text.toList =
            '"' :: (before.flatMap quotedChar ++
              '\\' :: d :: (ds ++ after.flatMap quotedChar ++ ['"'])) ∧
          scan (Token.Kind.string s).text = .error e ∧ e.fault = .invalidEscape d ∧
          e.fault.code = .invalidEscape ∧ e.span.start =
            (Place.mk 1 (2 + byteCount (before.flatMap quotedChar))).position) := by
  have hdecode : ∀ (written : List Char) (s : String), Contents written s.toList → ∃ span stop,
      scan (String.ofList ('"' :: (written ++ ['"']))) =
        .ok [⟨.string s, String.ofList ('"' :: (written ++ ['"'])), span⟩, .endOfFile stop] := by
    intro written s h
    obtain ⟨stop, hscan⟩ := (spells_iff.1 (contents_iff.2 h)).scan
    exact ⟨_, stop, hscan⟩
  refine ⟨fun written s => ⟨hdecode written s, ?_⟩, fun s => exists_contents s.toList,
    fun s => ⟨fun h => hdecode _ s (contents_flatMap_quotedChar h), fun h => ?_⟩⟩
  · rintro ⟨span, stop, h⟩
    obtain ⟨row, hrow, hts, -⟩ := scanFrom_sound h
    cases hrow with
    | stop => cases hts
    | token hb hl hr =>
      obtain ⟨hkind, hlexeme, -⟩ := Token.mk.inj (List.cons.inj hts).1
      rw [hkind, String.ofList_inj.1 hlexeme] at hl
      exact contents_iff.1 (spells_iff.2 hl)
  · obtain ⟨before, c, after, hs, hbefore, hc⟩ := exists_first_coded h
    obtain ⟨d, ds, hquoted, hd, he⟩ := hc.exists_letter
    have htext : (Token.Kind.string s).text.toList = '"' :: (before.flatMap quotedChar ++
        '\\' :: d :: (ds ++ after.flatMap quotedChar) ++ ['"']) := by
      simp [Token.Kind.text, quoted, hs, hquoted]
    have hscan := scan_of_invalidEscape (contents_flatMap_quotedChar hbefore) hd he
      (ds ++ after.flatMap quotedChar ++ ['"'])
    rw [List.append_assoc, List.cons_append, List.cons_append] at htext
    rw [← htext, String.ofList_toList] at hscan
    exact ⟨before, c, after, hs, hbefore, hc, d, ds, _, hquoted, htext, hscan, rfl, rfl, rfl⟩

/-- A literal with an escape and a character of two bytes, and two quoted texts: the first has a
tab and a quote in it, and the second a control behind an `é`. -/
theorem scan_literal_small :
    Contents ['é', '\\', 't'] "é\t".toList ∧
      (∃ span stop, scan "\"é\\t\"" = .ok [⟨.string "é\t", "\"é\\t\"", span⟩, .endOfFile stop]) ∧
      (∃ span stop, scan (Token.Kind.string "\t\"").text =
        .ok [⟨.string "\t\"", "\"\\t\\\"\"", span⟩, .endOfFile stop]) ∧
      ∃ e, scan (Token.Kind.string "é\x00").text = .error e ∧ e.fault.code = .invalidEscape ∧
        e.span.start = ⟨1, 4⟩ := by
  have hcontents : Contents ['é', '\\', 't'] "é\t".toList :=
    .cons (.plain (by decide) (by decide) (by decide)) (.cons (.escape (by decide)) .nil)
  have htab : ¬ Coded '\t' := item_quotedChar_iff.1 (.escape (by decide))
  have hquote : ¬ Coded '"' := item_quotedChar_iff.1 (.escape (by decide))
  have hraw : quotedChar 'é' = ['é'] := by decide +kernel
  have hletter : ¬ Coded 'é' := item_quotedChar_iff.1
    (hraw ▸ .plain (by decide) (by decide) (by decide))
  have hcoded : ∃ c ∈ "é\x00".toList, Coded c := ⟨'\x00', by decide, .inl rfl⟩
  obtain ⟨hdecode, -, hquoted⟩ := scan_literal
  obtain ⟨before, c, after, hs, hbefore, hc, d, ds, e, -, -, hscan, -, hcode, hstart⟩ :=
    (hquoted "é\x00").2 hcoded
  have hsplit : before = ['é'] := by
    have hlist : 'é' :: ['\x00'] = before ++ c :: after := hs
    rcases before with _ | ⟨b, _ | ⟨b', before⟩⟩
    · exact absurd ((List.cons.inj hlist).1 ▸ hc) hletter
    · rw [(List.cons.inj hlist).1]
    · have hb := (List.cons.inj (List.cons.inj hlist).2).1
      exact absurd (.inl rfl) (hb ▸ hbefore b' (by simp))
  rw [hsplit, List.flatMap_singleton, hraw] at hstart
  exact ⟨hcontents, (hdecode _ _).1 hcontents,
    (hquoted "\t\"").1 (by simp [htab, hquote]), e, hscan, hcode, hstart⟩

end Scriptlet
