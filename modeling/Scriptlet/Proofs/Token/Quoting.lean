import Mathlib
import Scriptlet.Proofs.Token.Failure
import Scriptlet.Proofs.Token.Layout

/-!
# Quoting tokens and faults

A diagnostic quotes one line of its file, as the file gives it: split at the newlines and without
the carriage returns at its end. A scan counts lines and columns for itself. This module shows that
columns of the scan name bytes of the quoted line, so that a reader who is shown a line and a column
finds there what is meant: the text of a token from its first column to its last, the character that
starts no token, or the backslash of an escape that there is none of.

What is cut off a line does not matter, as none of these ends in a carriage return.

## Main definitions

* `LexicalFault.blamed?` — the character that a fault is about
* `ReadsAt` — a line goes on with some text from a column on

## Main results

* `IsLexeme.unbroken` — tokens are not cut off with the end of a line
* `SourceFile.exists_readsAt` — what was read before a place does not end its line
* `scan_quotes` — tokens and faults are found in the quoted line
-/

namespace Scriptlet

/-- The character that a fault is about, if it is about one: the one that starts no token, or the
backslash that escapes nothing. -/
def LexicalFault.blamed? : LexicalFault → Option Char
  | unexpectedCharacter c => some c
  | invalidEscape _ => some '\\'
  | unterminatedString => none

/-- A fault is about a character unless a literal is not closed. -/
theorem LexicalFault.exists_blamed? {fault : LexicalFault}
    (h : fault.code = .unexpectedCharacter ∨ fault.code = .invalidEscape) :
    ∃ c, fault.blamed? = some c := by
  cases fault with
  | unexpectedCharacter c => exact ⟨c, rfl⟩
  | invalidEscape c => exact ⟨'\\', rfl⟩
  | unterminatedString => exact absurd h (by decide)

/-- From a column on, counted in bytes from one, a line goes on with a text. -/
def ReadsAt (line : String) (column : UInt32) (cs : List Char) : Prop :=
  ∃ before after, utf8 line.toList = before ++ (utf8 cs ++ after) ∧
    column.toNat = before.length + 1

/-- **Tokens are not cut off with the end of a line**, line ends apart. -/
theorem IsLexeme.unbroken {kind : Token.Kind} {lexeme : List Char} (h : IsLexeme kind lexeme)
    (hk : kind ≠ .newline) : Unbroken lexeme := by
  refine ⟨h.no_newline hk, h.ne_nil, fun hlast => ?_⟩
  have hreturn := List.mem_of_getLast? hlast
  cases h with
  | newline => exact hk rfl
  | number _ hd => exact absurd (hd _ hreturn) (by decide)
  | word hw => exact absurd ((isWord_iff.1 hw).2 _ hreturn) (by decide)
  | symbol s => exact s.unbroken.2.2 hlast
  | string hread =>
    -- a literal ends in its quote
    obtain ⟨written, rest, -, rfl, hlength⟩ := readString_eq_ok_iff.1 hread
    obtain rfl : rest = [] := by
      rw [List.length_append, List.length_cons] at hlength
      exact List.length_eq_zero_iff.1 (by omega)
    rw [← List.cons_append, List.getLast?_concat] at hlast
    exact absurd hlast (by decide)

/-- **What stands at a place is found in the line of that place**, if the carriage returns at the
end of that line are no part of it. -/
theorem SourceFile.exists_readsAt {f : SourceFile} {before cs after : List Char}
    (htext : f.text.toList = before ++ (cs ++ after)) (hcs : Unbroken cs)
    (hsize : f.text.utf8ByteSize < 2 ^ 32 - 1) :
    ∃ line, f.line? (Place.first.advanceAll before).position.line = some line ∧
      ReadsAt line (Place.first.advanceAll before).position.column cs := by
  have hbytes : byteCount before + 0 < 2 ^ 32 - 1 := by
    rw [← byteCount_toList, htext, byteCount_append] at hsize
    omega
  obtain ⟨hline, hcolumn, -⟩ := Place.span_advanceAll_first hbytes
  obtain ⟨ds, hds⟩ := f.exists_line htext hcs hline
  refine ⟨_, hds, utf8 (lastLine before), utf8 ds, ?_, ?_⟩
  · rw [String.toList_ofList, utf8_append, utf8_append]
  · rw [length_utf8]
    exact hcolumn

/-- **Where a fault shows**, if it is about a character: that character stands there, and it does
not belong to the end of a line. -/
theorem exists_blamed {text : String} {e : ScanError} {c : Char} (h : scan text = .error e)
    (hc : e.fault.blamed? = some c) :
    ∃ before after, text.toList = before ++ ([c] ++ after) ∧ Unbroken [c] ∧
      e.span.start = (Place.first.advanceAll before).position := by
  obtain ⟨ps, d, cs, err, -, htext, hblank, hread, rfl⟩ := scanFrom_eq_error h
  rw [htext]
  obtain ⟨rfl, e, ⟨line, rest, rfl, -, -, rfl⟩ | ⟨written, value, x, rest, rfl, -, -, -, rfl⟩,
    rfl⟩ | rfl := readLexeme_eq_error hread
  · cases hc
  · cases hc
    refine ⟨ps.flatten ++ '"' :: written, x :: rest, by simp, ⟨by decide, by decide, by decide⟩, ?_⟩
    rw [LexicalError.locate, take_literal, Place.advanceAll_append]
  · cases hc
    refine ⟨ps.flatten, cs, rfl, ⟨?_, List.cons_ne_nil _ _, ?_⟩, rfl⟩
    · intro hn
      obtain rfl := List.mem_singleton.1 hn
      cases hread
    · rintro ⟨⟩
      exact hblank rfl

/-- A line that reads a text from a column on has at least the bytes up to its end. -/
theorem ReadsAt.add_le {line : String} {column : UInt32} {cs : List Char}
    (h : ReadsAt line column cs) : column.toNat + byteCount cs ≤ line.utf8ByteSize + 1 := by
  obtain ⟨before, after, hline, hcolumn⟩ := h
  have hlength := congrArg List.length hline
  rw [length_utf8, byteCount_toList, List.length_append, List.length_append, length_utf8] at hlength
  omega

/-- **A token is found in the line of its span.** -/
theorem SourceFile.LaidOut.exists_readsAt {f : SourceFile} {row : List Spaced} {s : Spaced}
    (h : f.LaidOut row) (hs : s ∈ row) (hu : Unbroken s.token.lexeme.toList) :
    ∃ line, f.line? s.token.span.start.line = some line ∧
      ReadsAt line s.token.span.start.column s.token.lexeme.toList := by
  obtain ⟨pre, post, rfl⟩ := List.append_of_mem hs
  have hparts : f.text.toList =
      written pre ++ s.blanks ++ (s.token.lexeme.toList ++ written post) := by
    rw [h.text_eq, written_append, written_cons, Spaced.text]
    simp only [List.append_assoc]
  rw [h.laid.of_append.2.span_eq, ← Place.advanceAll_append]
  exact f.exists_readsAt hparts hu h.size_lt

/-- **Tokens and faults are found in the quoted line.** Take a text that is not too long. Every
token of it but line ends and the mark of the end stands on the line that the file gives for its
span: that line reads its lexeme from the first column on, and goes on at least to the last column,
where the lexeme ends. If a scan fails at a character that starts no token, or at a backslash that
escapes nothing, then the line quoted by the diagnostic reads that character at the column that is
blamed. -/
theorem scan_quotes {f : SourceFile} (hsize : f.text.utf8ByteSize < 2 ^ 32 - 1) :
    (∀ ts, scan f.text = .ok ts → ∀ t ∈ ts, t.kind ≠ .newline → t.kind ≠ .endOfFile →
      ∃ line, f.line? t.span.start.line = some line ∧
        ReadsAt line t.span.start.column t.lexeme.toList ∧
        t.span.stop.column.toNat + 1 = t.span.start.column.toNat + t.lexeme.utf8ByteSize ∧
        t.span.stop.column.toNat ≤ line.utf8ByteSize) ∧
    ∀ e, scan f.text = .error e →
      (e.diagnostic f).code = .unexpectedCharacter ∨ (e.diagnostic f).code = .invalidEscape →
        ∃ c, e.fault.blamed? = some c ∧
          ReadsAt (e.diagnostic f).sourceLine (e.diagnostic f).span.start.column [c] := by
  constructor
  · intro ts h t ht hnewline hend
    obtain ⟨row, hrow, rfl, hwritten⟩ := scanFrom_sound h
    obtain ⟨s, hs, rfl⟩ := List.mem_map.1 ht
    have hlaid : f.LaidOut row := ⟨hrow, hwritten.symm, hsize⟩
    have hunbroken := (hlaid.proper hs hend).2.unbroken hnewline
    obtain ⟨line, hline, hreads⟩ := hlaid.exists_readsAt hs hunbroken
    have hpos := byteCount_pos hunbroken.2.1
    have hle := hreads.add_le
    obtain ⟨pre, post, rfl⟩ := List.append_of_mem hs
    obtain ⟨-, -, -, hstop⟩ := hrow.standsBehind (by rwa [hwritten, byteCount_toList])
    rw [byteCount_toList] at hpos hle
    exact ⟨line, hline, hreads, by omega, by omega⟩
  · intro e h hcode
    obtain ⟨c, hc⟩ := LexicalFault.exists_blamed? hcode
    obtain ⟨before, after, htext, hunbroken, hstart⟩ := exists_blamed h hc
    obtain ⟨line, hline, hreads⟩ := f.exists_readsAt htext hunbroken hsize
    rw [← hstart] at hline hreads
    have hquoted : (e.diagnostic f).sourceLine = line := by
      show (f.line? e.span.start.line).getD "" = line
      rw [hline, Option.getD_some]
    rw [hquoted]
    exact ⟨c, hc, hreads⟩

/-- The second line ends in carriage returns, which its quotation leaves out: behind a token, and
where an escape should be. -/
theorem scan_quotes_small :
    let token : Token := ⟨.string "é", "\"é\"", ⟨⟨2, 2⟩, ⟨2, 5⟩⟩⟩
    let error : ScanError := ⟨.invalidEscape '\r', ⟨⟨2, 4⟩, ⟨2, 5⟩⟩⟩
    (∃ ts, scan "x\n \"é\"\r\r\n" = .ok ts ∧ token ∈ ts ∧ ReadsAt " \"é\"" 2 "\"é\"".toList) ∧
      scan "x\n\"é\\\r" = .error error ∧
      ReadsAt (error.diagnostic ⟨"small", "x\n\"é\\\r"⟩).sourceLine 4 ['\\'] := by
  intro token error
  have hscan : scan "x\n \"é\"\r\r\n" = .ok
      [⟨.identifier "x", "x", ⟨⟨1, 1⟩, ⟨1, 1⟩⟩⟩, ⟨.newline, "\n", ⟨⟨1, 2⟩, ⟨1, 2⟩⟩⟩, token,
        ⟨.newline, "\n", ⟨⟨2, 8⟩, ⟨2, 8⟩⟩⟩, .endOfFile (.point ⟨3, 1⟩)] := by cbv
  have hfail : scan "x\n\"é\\\r" = .error error := by cbv
  have hquoted : SourceFile.line? ⟨"small", "x\n \"é\"\r\r\n"⟩ 2 = some " \"é\"" := by cbv
  obtain ⟨line, hline, hreads, -⟩ := (@scan_quotes ⟨"small", "x\n \"é\"\r\r\n"⟩ (by decide)).1 _
    hscan token (by simp) (by simp [token]) (by simp [token])
  obtain rfl : line = " \"é\"" := Option.some.inj (hline.symm.trans hquoted)
  obtain ⟨c, hc, hfault⟩ :=
    (@scan_quotes ⟨"small", "x\n\"é\\\r"⟩ (by decide)).2 _ hfail (.inr rfl)
  obtain rfl : '\\' = c := Option.some.inj hc
  exact ⟨⟨_, hscan, by simp, hreads⟩, hfail, hfault⟩

end Scriptlet
