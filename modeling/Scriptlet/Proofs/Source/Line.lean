import Mathlib.Algebra.Group.Nat.Defs
import Mathlib.Data.List.DropRight
import Scriptlet.Proofs.Source.Table

/-!
# Spans and the lines they stand on

A reader that walks through a text counts lines and columns as it goes. A file that is asked for a
line looks it up in a table that was made of its whole text. This module shows that the two agree:
the span of a stretch of text without newlines, measured by a walking reader, cuts exactly the bytes
of that stretch out of the line that the file gives.

Lines and columns are numbers of 32 bits, so the text must not be too long: all positions in a text
of fewer than `2 ^ 32 - 1` bytes, and the one behind it, fit. A line is given without the carriage
returns at its end, so the stretch must not end in one.

## Main definitions

* `lastLine` — what stands behind the last newline
* `SourceFile.bytesAt?` — the bytes that a span covers
* `Unbroken` — a stretch on one line, with an end that is not cut off
* `SourceFile.Shows` — a span stands on one line and covers exactly some text

## Main results

* `Place.advanceAll_first` — where a reader stands behind a text
* `Place.span_advanceAll_first` — where a stretch of text stands
* `SourceFile.shows_span` — spans show what they were measured on
* `Place.merge_span` — the span from the first to the last part of a stretch is that of the stretch
-/

namespace Scriptlet

/-- What stands behind the last newline of a text. -/
def lastLine (cs : List Char) : List Char := cs.rtakeWhile (· ≠ '\n')

/-- The bytes from the start of a span to its stop in the line that it starts on, if the columns of
the span are columns of that line. -/
def SourceFile.bytesAt? (f : SourceFile) (s : Span) : Option (List UInt8) :=
  (f.line? s.start.line).bind fun l =>
    if 1 ≤ s.start.column.toNat ∧ s.start.column.toNat ≤ s.stop.column.toNat ∧
        s.stop.column.toNat ≤ l.utf8ByteSize then
      some (((utf8 l.toList).take s.stop.column.toNat).drop (s.start.column.toNat - 1))
    else none

/-- A stretch of text on one line that is not cut off with the carriage returns at its end. -/
def Unbroken (cs : List Char) : Prop := '\n' ∉ cs ∧ cs ≠ [] ∧ cs.getLast? ≠ some '\r'

/-- A span stands on one line of a file, where it covers exactly this text. -/
def SourceFile.Shows (f : SourceFile) (s : Span) (cs : List Char) : Prop :=
  s.start.line = s.stop.line ∧ f.bytesAt? s = some (utf8 cs)

/-! ### The last line -/

theorem lastLine_concat (cs : List Char) (c : Char) :
    lastLine (cs ++ [c]) = if c = '\n' then [] else lastLine cs ++ [c] := by
  rw [lastLine, List.rtakeWhile_concat]
  by_cases hc : c = '\n' <;> simp [hc, lastLine]

/-- The newlines and the last line are among the bytes of a text. -/
theorem count_add_byteCount_lastLine_le (cs : List Char) :
    cs.count '\n' + byteCount (lastLine cs) ≤ byteCount cs := by
  induction cs using List.reverseRecOn with
  | nil => exact Nat.le.refl
  | append_singleton cs c ih =>
    rw [lastLine_concat, List.count_append, byteCount_append]
    by_cases hc : c = '\n'
    · subst hc
      have := '\n'.utf8Size_pos
      rw [if_pos rfl, List.count_singleton_self, byteCount_cons, byteCount_nil]
      omega
    · simp [hc, byteCount_append]
      omega

/-- **Where a reader stands behind a text**: below all its newlines, and behind its last line. -/
theorem Place.advanceAll_first (cs : List Char) :
    Place.first.advanceAll cs = ⟨cs.count '\n' + 1, byteCount (lastLine cs) + 1⟩ := by
  induction cs using List.reverseRecOn with
  | nil => rfl
  | append_singleton cs c ih =>
    rw [advanceAll_append, ih, lastLine_concat, advanceAll_cons, advanceAll_nil, advance]
    by_cases hc : c = '\n'
    · simp [hc]
    · simp [hc, byteCount_append]
      omega

theorem Place.line_advanceAll_first (cs : List Char) :
    (Place.first.advanceAll cs).line = cs.count '\n' + 1 := by rw [advanceAll_first]

theorem Place.column_advanceAll_first (cs : List Char) :
    (Place.first.advanceAll cs).column = byteCount (lastLine cs) + 1 := by rw [advanceAll_first]

/-- Where lines and columns are numbers of 32 bits, spans have them as they are counted. -/
theorem Place.span_toNat {p : Place} {n : Nat} (hline : p.line < 2 ^ 32)
    (hcolumn : p.column + n < 2 ^ 32) :
    (p.span n).start.line.toNat = p.line ∧ (p.span n).start.column.toNat = p.column ∧
      (p.span n).stop.column.toNat = p.column + (max n 1 - 1) :=
  ⟨UInt32.toNat_ofNat_of_lt' hline, UInt32.toNat_ofNat_of_lt' (show p.column < 2 ^ 32 by omega),
    UInt32.toNat_ofNat_of_lt' (show p.column + (max n 1 - 1) < 2 ^ 32 by omega)⟩

/-- **Where a stretch of text stands**, if the text up to its end is not too long. -/
theorem Place.span_advanceAll_first {before : List Char} {n : Nat}
    (h : byteCount before + n < 2 ^ 32 - 1) :
    ((first.advanceAll before).span n).start.line.toNat = before.count '\n' + 1 ∧
      ((first.advanceAll before).span n).start.column.toNat = byteCount (lastLine before) + 1 ∧
      ((first.advanceAll before).span n).stop.column.toNat =
        byteCount (lastLine before) + 1 + (max n 1 - 1) := by
  have hle := count_add_byteCount_lastLine_le before
  have hspan := span_toNat (p := first.advanceAll before) (n := n)
  rw [line_advanceAll_first, column_advanceAll_first] at hspan
  exact hspan (by omega) (by omega)

/-! ### The line that goes on -/

/-- As many lines as there are newlines end before a text, and the next one goes on in it. -/
theorem drop_splitLines (before : List Char) : ∀ {cs l : List Char} {ls : List (List Char)},
    splitLines cs = l :: ls →
      (splitLines (before ++ cs)).drop (before.count '\n') = (lastLine before ++ l) :: ls := by
  -- from the end, so that the character before `cs` decides where its first line starts
  induction before using List.reverseRecOn with
  | nil =>
    intro cs l ls h
    rw [List.nil_append, h]
    rfl
  | append_singleton before c ih =>
    intro cs l ls h
    rw [List.append_assoc, List.singleton_append, lastLine_concat, List.count_append]
    by_cases hc : c = '\n'
    · subst hc
      have hsplit : splitLines ('\n' :: cs) = [] :: l :: ls := by rw [splitLines, if_pos rfl, h]
      rw [if_pos rfl, List.nil_append, List.count_singleton_self, ← List.drop_drop, ih hsplit]
      rfl
    · have hsplit : splitLines (c :: cs) = (c :: l) :: ls := by
        rw [splitLines, if_neg hc, h]
      rw [if_neg hc, List.count_singleton, if_neg (by simpa using hc), Nat.add_zero, ih hsplit,
        List.append_assoc, List.singleton_append]

/-- The line on which some text starts is the last line before it, with the text up to its first
newline behind it. -/
theorem getElem?_splitLines (before cs : List Char) :
    (splitLines (before ++ cs))[before.count '\n']? =
      some (lastLine before ++ cs.takeWhile (· ≠ '\n')) := by
  obtain ⟨ls, hls⟩ := exists_splitLines cs
  rw [← List.head?_drop, drop_splitLines before hls, List.head?_cons]

/-- Carriage returns are taken from the end of a line only. -/
theorem exists_trimReturns {c : Char} (hc : c ≠ '\r') (init cs : List Char) :
    ∃ ds, trimReturns (init ++ c :: cs) = init ++ c :: ds := by
  show ∃ ds, List.rdropWhile (· = '\r') (init ++ c :: cs) = init ++ c :: ds
  induction cs using List.reverseRecOn with
  | nil =>
    refine ⟨[], ?_⟩
    rw [List.rdropWhile_concat_neg _ _ _ (by simpa using hc)]
  | append_singleton cs d ih =>
    rw [← List.cons_append, ← List.append_assoc, List.rdropWhile_concat]
    split
    · exact ih
    · exact ⟨cs ++ [d], by simp⟩

/-! ### What spans show -/

theorem Unbroken.append {cs : List Char} (h : Unbroken cs) {init : List Char} (hn : '\n' ∉ init) :
    Unbroken (init ++ cs) := by
  obtain ⟨hcs, hne, hlast⟩ := h
  refine ⟨by simp [hn, hcs], by simp [hne], ?_⟩
  rwa [List.getLast?_append_of_ne_nil _ hne]

/-- The line of a file on which a stretch of text stands. -/
theorem SourceFile.exists_line {f : SourceFile} {before cs after : List Char}
    (htext : f.text.toList = before ++ (cs ++ after)) (hcs : Unbroken cs) {n : UInt32}
    (hline : n.toNat = before.count '\n' + 1) :
    ∃ ds, f.line? n = some (String.ofList (lastLine before ++ (cs ++ ds))) := by
  obtain ⟨hn, hne, hlast⟩ := hcs
  obtain ⟨init, c, rfl⟩ := (List.eq_nil_or_concat' cs).resolve_left hne
  have hc : c ≠ '\r' := by simpa using hlast
  have htake : (init ++ [c] ++ after).takeWhile (· ≠ '\n') =
      init ++ c :: after.takeWhile (· ≠ '\n') := by
    have hpos : ∀ d ∈ init ++ [c], decide (d ≠ '\n') = true := fun d hd =>
      decide_eq_true fun h => hn (h ▸ hd)
    rw [List.takeWhile_append_of_pos hpos, List.append_assoc, List.singleton_append]
  obtain ⟨ds, hds⟩ := exists_trimReturns hc (lastLine before ++ init) (after.takeWhile (· ≠ '\n'))
  refine ⟨ds, ?_⟩
  rw [line?_eq_getElem? _ hline, lines, htext, getElem?_splitLines, htake, Option.map_some,
    ← List.append_assoc, hds, List.append_assoc, List.append_assoc, List.singleton_append]

/-- **Spans show what they were measured on.** In a text that is not too long, the span of a stretch
on one line covers exactly that stretch. -/
theorem SourceFile.shows_span {f : SourceFile} {before cs after : List Char}
    (htext : f.text.toList = before ++ (cs ++ after)) (hcs : Unbroken cs)
    (hsize : f.text.utf8ByteSize < 2 ^ 32 - 1) :
    f.Shows ((Place.first.advanceAll before).span (byteCount cs)) cs := by
  have hpos := byteCount_pos hcs.2.1
  have hbytes : byteCount before + byteCount cs < 2 ^ 32 - 1 := by
    rw [← byteCount_toList, htext, byteCount_append, byteCount_append] at hsize
    omega
  obtain ⟨hline, hstart, hstop⟩ := Place.span_advanceAll_first hbytes
  obtain ⟨ds, hds⟩ := exists_line htext hcs hline
  have hend : byteCount (lastLine before) + 1 + (max (byteCount cs) 1 - 1) =
      byteCount (lastLine before ++ cs) := by
    rw [byteCount_append]
    omega
  have hsize : (String.ofList (lastLine before ++ (cs ++ ds))).utf8ByteSize =
      byteCount (lastLine before ++ cs) + byteCount ds := by
    rw [← byteCount_toList, String.toList_ofList, ← List.append_assoc, byteCount_append]
  refine ⟨rfl, ?_⟩
  rw [bytesAt?, hds, Option.bind_some, if_pos (by omega), String.toList_ofList, hstart, hstop, hend,
    Nat.add_sub_cancel, ← List.append_assoc, utf8_append, List.take_left' (length_utf8 _),
    utf8_append, List.drop_left' (length_utf8 _)]

/-! ### Merging spans -/

theorem Place.position_le {p q : Place} (hline : p.line = q.line)
    (hcolumn : p.column ≤ q.column) (hq : q.column < 2 ^ 32) : p.position ≤ q.position := by
  refine .inr ⟨congrArg UInt32.ofNat hline, ?_⟩
  rw [UInt32.le_iff_toNat_le, Place.position, Place.position, UInt32.toNat_ofNat_of_lt' hq,
    UInt32.toNat_ofNat_of_lt' (Nat.lt_of_le_of_lt hcolumn hq)]
  exact hcolumn

theorem Span.merge_of_le {a b : Span} (hstart : a.start ≤ b.start) (hstop : a.stop ≤ b.stop) :
    a.merge b = ⟨a.start, b.stop⟩ := by
  show Span.mk (if _ then _ else _) (if _ then _ else _) = _
  rw [if_pos hstart, if_pos hstop]

/-- **The span from the first part of a stretch to its last part is the span of the stretch**, if
the parts before the last one stand on one line. -/
theorem Place.merge_span {p : Place} {x y z : List Char} (hx : x ≠ []) (hz : z ≠ [])
    (hn : '\n' ∉ x ++ y) (hcolumn : p.column + byteCount (x ++ (y ++ z)) < 2 ^ 32) :
    (p.span (byteCount x)).merge ((p.advanceAll (x ++ y)).span (byteCount z)) =
      p.span (byteCount (x ++ (y ++ z))) := by
  have hx := byteCount_pos hx
  have hz := byteCount_pos hz
  obtain ⟨line, column⟩ := p
  rw [advanceAll_of_no_newline hn]
  simp only [byteCount_append] at hcolumn ⊢
  -- from here on the parts are only as long as they are
  generalize byteCount x = a at *
  generalize byteCount y = b at *
  generalize byteCount z = c at *
  have hstart : (Place.mk line column).position ≤ (Place.mk line (column + (a + b))).position :=
    position_le rfl (Nat.le_add_right _ _) (show column + (a + b) < 2 ^ 32 by omega)
  have hstop : (Place.mk line (column + (max a 1 - 1))).position ≤
      (Place.mk line (column + (a + b) + (max c 1 - 1))).position :=
    position_le rfl (show column + (max a 1 - 1) ≤ column + (a + b) + _ by omega)
      (show column + (a + b) + (max c 1 - 1) < 2 ^ 32 by omega)
  rw [Span.merge_of_le hstart hstop, span, span, span, position]
  simp only [show column + (a + b) + (max c 1 - 1) = column + (max (a + (b + c)) 1 - 1) by omega]

end Scriptlet
