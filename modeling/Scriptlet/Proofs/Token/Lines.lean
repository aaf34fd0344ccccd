import Mathlib
import Scriptlet.Proofs.Token.Failure

/-!
# Scanning line by line

What a scanner knows behind a newline is the number of the line. No token goes over a line end, and
a literal is given up there just as it is at the end of the text, so the text before a newline can
be scanned on its own, and so can the text behind it.

The two halves are joined by two facts. A reader of lexemes cannot tell a newline from the end of
its text, which gives the first half. And a scan that starts further down does the same as one at
the top, with larger line numbers, which gives the second. A diagnostic quotes its line from the
whole file; the lines of the joined text are those of the two texts in turn, so it finds the same
line there under its new number.

That no line number passes 32 bits is used for the second half only.

## Main definitions

* `Place.below` — a place some lines further down
* `Position.MovesTo`, `Span.MovesTo`, `Token.MovesTo` — the same, but for line numbers
* `ScanMoves` — two scans that differ in line numbers

## Main results

* `readLexeme_append_newline` — a newline is as good as the end of the text
* `scanFrom_append_newline` — a scan of joined texts goes on from the first to the second
* `scanFrom_below` — a scan that starts further down
* `scan_lines` — scanning is compositional over lines
-/

namespace Scriptlet

/-! ### Lines of joined texts -/

theorem toList_joined (a b : String) : (a ++ "\n" ++ b).toList = a.toList ++ '\n' :: b.toList := by
  rw [String.toList_append, String.toList_append, List.append_assoc]
  rfl

namespace SourceFile

variable {name a b : String} {l l' : UInt32}

theorem lines_joined : lines ⟨name, a ++ "\n" ++ b⟩ = lines ⟨name, a⟩ ++ lines ⟨name, b⟩ := by
  rw [lines, toList_joined, splitLines_append_newline]
  rfl

/-- The lines of the first text keep their numbers. -/
theorem line?_joined_of_le (h : l.toNat ≤ lineCount ⟨name, a⟩) :
    line? ⟨name, a ++ "\n" ++ b⟩ l = line? ⟨name, a⟩ l := by
  cases hl : l.toNat with
  | zero => rw [line?_eq_none _ hl, line?_eq_none _ hl]
  | succ i =>
    rw [hl, ← length_lines] at h
    rw [line?_eq_getElem? _ hl, line?_eq_getElem? _ hl, lines_joined, List.getElem?_append_left h]

/-- The lines of the second text are below those of the first. -/
theorem line?_joined_of_add (h : l.toNat ≠ 0) (hl : l'.toNat = l.toNat + lineCount ⟨name, a⟩) :
    line? ⟨name, a ++ "\n" ++ b⟩ l' = line? ⟨name, b⟩ l := by
  obtain ⟨i, hi⟩ := Nat.exists_eq_succ_of_ne_zero h
  rw [hi, Nat.succ_add, ← length_lines] at hl
  rw [line?_eq_getElem? _ hl, line?_eq_getElem? _ hi, lines_joined,
    List.getElem?_append_right (Nat.le_add_left ..), Nat.add_sub_cancel]

end SourceFile

/-! ### A newline is as good as the end -/

theorem readString_append_newline (cs b : List Char) :
    readString (cs ++ '\n' :: b) = readString cs := by
  fun_induction readString cs with
  | case1 =>
    rw [List.nil_append, readString.eq_def]
    rfl
  | case4 | case5 => simp [readString]
  | case2 cs | case3 cs =>
    rw [List.cons_append, readString.eq_def]
    simp
  | case6 d ds hd e he _ _ ih => simp [readString, hd, he, ih]
  | case7 d ds hd hnone => simp [readString, hd, hnone]
  | case8 c cs hline hquote hbackslash ih =>
    rw [List.cons_append, readString.eq_def]
    simp [hline, hquote, hbackslash, ih]

theorem takeWhile_append_newline {P : Char → Bool} (hP : ¬ P '\n') (cs b : List Char) :
    (cs ++ '\n' :: b).takeWhile P = cs.takeWhile P := by
  induction cs with
  | nil => exact List.takeWhile_cons_of_neg hP
  | cons c cs ih => rw [List.cons_append, List.takeWhile_cons, List.takeWhile_cons, ih]

/-- **A newline is as good as the end of the text** for a reader of lexemes. -/
theorem readLexeme_append_newline (c : Char) (cs b : List Char) :
    readLexeme c (cs ++ '\n' :: b) = readLexeme c cs := by
  rw [readLexeme.eq_def, readLexeme.eq_def c cs, readString_append_newline,
    takeWhile_append_newline (by decide), takeWhile_append_newline (by decide)]
  cases cs with
  | nil => cases Symbol.ofChar? c <;> cases Symbol.beforeEquals? c <;> rfl
  | cons d ds =>
    by_cases hd : d = '='
    · subst hd
      cases Symbol.ofChar? c <;> cases Symbol.beforeEquals? c <;> rfl
    · cases Symbol.ofChar? c <;> cases Symbol.beforeEquals? c <;> simp [hd]

/-- Faults are found on the way, so what is passed over to get there is part of the text. -/
theorem offset_le_of_readLexeme {c : Char} {cs : List Char} {e : LexicalError}
    (h : readLexeme c cs = .error e) : e.offset ≤ (c :: cs).length := by
  obtain ⟨-, e, hspoilt, rfl⟩ | rfl := readLexeme_eq_error h
  · obtain ⟨line, rest, rfl, -, -, rfl⟩ | ⟨written, value, d, rest, rfl, -, -, -, rfl⟩ := hspoilt
    · show 1 + line.length ≤ (c :: (line ++ rest)).length
      rw [List.length_cons, List.length_append]
      omega
    · show 1 + written.length ≤ (c :: (written ++ '\\' :: d :: rest)).length
      rw [List.length_cons, List.length_append]
      omega
  · exact Nat.zero_le _

theorem LexicalError.locate_append {e : LexicalError} {text : List Char}
    (h : e.offset ≤ text.length) (p : Place) (rest : List Char) :
    e.locate p (text ++ rest) = e.locate p text := by
  rw [locate, locate, List.take_append_of_le_length h]

/-! ### One text after the other -/

section Scanning

variable {p : Place} {c : Char} {cs : List Char}

theorem scanFrom_of_isBlank (hc : isBlank c) :
    scanFrom p (c :: cs) = scanFrom (p.advance c) cs := by
  rw [scanFrom, if_pos hc]

theorem scanFrom_of_error (hc : ¬ isBlank c) {e : LexicalError} (h : readLexeme c cs = .error e) :
    scanFrom p (c :: cs) = .error (e.locate p (c :: cs)) := by
  rw [scanFrom, if_neg hc, h]

theorem scanFrom_of_ok (hc : ¬ isBlank c) {kind : Token.Kind} {n : Nat}
    (h : readLexeme c cs = .ok (kind, n)) :
    scanFrom p (c :: cs) = (scanFrom (p.advanceAll (c :: cs.take n)) (cs.drop n)).map
      (.ofLexeme p kind (c :: cs.take n) :: ·) := by
  rw [scanFrom, if_neg hc, h]
  simp only
  cases scanFrom (p.advanceAll (c :: cs.take n)) (cs.drop n) <;> rfl

end Scanning

/-- A text that cannot be scanned fails in the same way with more lines below it. -/
theorem scanFrom_append_newline_of_error {p : Place} {a : List Char} {e : ScanError}
    (h : scanFrom p a = .error e) (b : List Char) : scanFrom p (a ++ '\n' :: b) = .error e := by
  fun_induction scanFrom p a with
  | case1 | case5 => cases h
  | case2 p c cs hc ih =>
    rw [List.cons_append, scanFrom_of_isBlank hc]
    exact ih h
  | case3 p c cs hc err hread =>
    cases h
    have hoffset := offset_le_of_readLexeme hread
    rw [← readLexeme_append_newline c cs b] at hread
    rw [List.cons_append, scanFrom_of_error hc hread, ← List.cons_append,
      LexicalError.locate_append hoffset]
  | case4 p c cs hc kind n hread lexeme err hrest =>
    rename_i ih
    cases h
    have hn := (readLexeme_sound hread).1
    rw [← readLexeme_append_newline c cs b] at hread
    rw [List.cons_append, scanFrom_of_ok hc hread, List.take_append_of_le_length hn,
      List.drop_append_of_le_length hn, ih hrest]
    rfl

/-- **A scan of joined texts goes on from the first to the second.** The mark of the end gives way
to the newline. -/
theorem scanFrom_append_newline {p : Place} {a : List Char} {ts : List Token}
    (h : scanFrom p a = .ok ts) :
    ∃ init, ts = init ++ [.endOfFile (.point (p.advanceAll a).position)] ∧
      ∀ b, scanFrom p (a ++ '\n' :: b) = (scanFrom ((p.advanceAll a).advance '\n') b).map fun us =>
        init ++ ⟨.newline, "\n", .point (p.advanceAll a).position⟩ :: us := by
  fun_induction scanFrom p a generalizing ts with
  | case1 p =>
    cases h
    refine ⟨[], rfl, fun b => ?_⟩
    have hread : readLexeme '\n' b = .ok (.newline, 0) := rfl
    rw [List.nil_append, scanFrom_of_ok (by decide) hread]
    rfl
  | case2 p c cs hc ih =>
    obtain ⟨init, hts, hscan⟩ := ih h
    refine ⟨init, hts, fun b => ?_⟩
    rw [List.cons_append, scanFrom_of_isBlank hc, hscan]
    rfl
  | case3 | case4 => cases h
  | case5 p c cs hc kind n hread lexeme tokens hrest =>
    rename_i ih
    cases h
    obtain ⟨init, rfl, hscan⟩ := ih hrest
    have hn := (readLexeme_sound hread).1
    have hlexeme : lexeme ++ cs.drop n = c :: cs := by
      rw [List.cons_append, List.take_append_drop]
    rw [← Place.advanceAll_append, hlexeme] at hscan ⊢
    refine ⟨.ofLexeme p kind lexeme :: init, rfl, fun b => ?_⟩
    rw [← readLexeme_append_newline c cs b] at hread
    rw [List.cons_append, scanFrom_of_ok hc hread, List.take_append_of_le_length hn,
      List.drop_append_of_le_length hn, hscan]
    cases scanFrom ((p.advanceAll (c :: cs)).advance '\n') b <;> rfl

/-! ### Further down -/

/-- The place `n` lines further down. -/
def Place.below (n : Nat) (p : Place) : Place := ⟨p.line + n, p.column⟩

theorem Place.advance_below (n : Nat) (p : Place) (c : Char) :
    (p.below n).advance c = (p.advance c).below n := by
  unfold advance below
  split
  · simp only [Nat.add_right_comm]
  · rfl

theorem Place.advanceAll_below (n : Nat) (p : Place) (cs : List Char) :
    (p.below n).advanceAll cs = (p.advanceAll cs).below n := by
  induction cs generalizing p with
  | nil => rfl
  | cons c cs ih => rw [advanceAll_cons, advance_below, ih, advanceAll_cons]

theorem Place.line_advanceAll (p : Place) (cs : List Char) :
    (p.advanceAll cs).line = p.line + cs.count '\n' := by
  induction cs generalizing p with
  | nil => rfl
  | cons c cs ih =>
    rw [advanceAll_cons, ih, advance]
    split
    · rename_i hc
      show p.line + 1 + _ = _
      rw [hc, List.count_cons_self]
      omega
    · rename_i hc
      rw [List.count_cons_of_ne hc]

/-- The same column, `n` lines further down. -/
def Position.MovesTo (n : Nat) (p p' : Position) : Prop :=
  p'.line.toNat = p.line.toNat + n ∧ p'.column = p.column

/-- The same stretch of a line, `n` lines further down. -/
def Span.MovesTo (n : Nat) (s s' : Span) : Prop :=
  s.start.MovesTo n s'.start ∧ s.stop.MovesTo n s'.stop

/-- The same token, `n` lines further down. -/
def Token.MovesTo (n : Nat) (t t' : Token) : Prop :=
  t'.kind = t.kind ∧ t'.lexeme = t.lexeme ∧ t.span.MovesTo n t'.span

/-- Scans that tell the same, `n` lines further down. -/
inductive ScanMoves (n : Nat) :
    Except ScanError (List Token) → Except ScanError (List Token) → Prop
  | ok {us us'} (h : List.Forall₂ (Token.MovesTo n) us us') : ScanMoves n (.ok us) (.ok us')
  | error {e e'} (hfault : e'.fault = e.fault) (hspan : e.span.MovesTo n e'.span) :
      ScanMoves n (.error e) (.error e')

theorem Position.movesTo_ofNat {n line : Nat} (h : line + n < 2 ^ 32) (column : UInt32) :
    MovesTo n ⟨.ofNat line, column⟩ ⟨.ofNat (line + n), column⟩ := by
  refine ⟨?_, rfl⟩
  show (UInt32.ofNat (line + n)).toNat = (UInt32.ofNat line).toNat + n
  rw [UInt32.toNat_ofNat_of_lt' h, UInt32.toNat_ofNat_of_lt' (Nat.lt_of_le_of_lt (by omega) h)]

theorem Place.movesTo_below {n : Nat} {p : Place} (h : p.line + n < 2 ^ 32) :
    p.position.MovesTo n (p.below n).position := Position.movesTo_ofNat h _

theorem Token.movesTo_ofLexeme {n : Nat} {p : Place} (h : p.line + n < 2 ^ 32)
    (kind : Token.Kind) (lexeme : List Char) :
    MovesTo n (.ofLexeme p kind lexeme) (.ofLexeme (p.below n) kind lexeme) :=
  ⟨rfl, rfl, Position.movesTo_ofNat h _, Position.movesTo_ofNat h _⟩

theorem LexicalError.movesTo_locate {n : Nat} {p : Place} {text : List Char}
    (h : p.line + text.count '\n' + n < 2 ^ 32) (e : LexicalError) :
    (e.locate p text).span.MovesTo n (e.locate (p.below n) text).span := by
  have hreached : (p.advanceAll (text.take e.offset)).line + n < 2 ^ 32 := by
    have hle : (text.take e.offset).count '\n' ≤ text.count '\n' :=
      (List.take_sublist _ _).count_le _
    rw [Place.line_advanceAll]
    omega
  rw [locate, locate, Place.advanceAll_below]
  generalize p.advanceAll (text.take e.offset) = reached at hreached
  have hmoves := Place.movesTo_below hreached
  cases e.fault with
  | unexpectedCharacter c => exact ⟨hmoves, hmoves⟩
  | unterminatedString => exact ⟨Place.movesTo_below (by omega), hmoves⟩
  | invalidEscape c =>
    refine ⟨hmoves, ?_⟩
    show (reached.advance '\\').position.MovesTo n ((reached.below n).advance '\\').position
    rw [Place.advance_below]
    exact Place.movesTo_below hreached

theorem ScanMoves.map_cons {n : Nat} {r r' : Except ScanError (List Token)} {t t' : Token}
    (h : ScanMoves n r r') (ht : t.MovesTo n t') :
    ScanMoves n (r.map (t :: ·)) (r'.map (t' :: ·)) := by
  cases h with
  | ok h => exact .ok (.cons ht h)
  | error hfault hspan => exact .error hfault hspan

theorem Place.line_add_count (p : Place) (cs ds : List Char) :
    (p.advanceAll cs).line + ds.count '\n' = p.line + (cs ++ ds).count '\n' := by
  rw [line_advanceAll, List.count_append, Nat.add_assoc]

theorem ScanMoves.lexeme {n : Nat} {p : Place} {c : Char} {cs : List Char} {kind : Token.Kind}
    {length : Nat} (hc : ¬ isBlank c) (hread : readLexeme c cs = .ok (kind, length))
    (hline : p.line + (c :: cs).count '\n' + n < 2 ^ 32)
    (hrest : (p.advanceAll (c :: cs.take length)).line + (cs.drop length).count '\n' + n < 2 ^ 32 →
      ScanMoves n (scanFrom (p.advanceAll (c :: cs.take length)) (cs.drop length))
        (scanFrom ((p.advanceAll (c :: cs.take length)).below n) (cs.drop length))) :
    ScanMoves n (scanFrom p (c :: cs)) (scanFrom (p.below n) (c :: cs)) := by
  have htext : c :: cs.take length ++ cs.drop length = c :: cs := by
    rw [List.cons_append, List.take_append_drop]
  rw [Place.line_add_count, htext] at hrest
  rw [scanFrom_of_ok hc hread, scanFrom_of_ok hc hread, Place.advanceAll_below]
  exact (hrest hline).map_cons (Token.movesTo_ofLexeme (by omega) kind _)

/-- **A scan that starts further down** tells the same there. -/
theorem scanFrom_below {n : Nat} {p : Place} {text : List Char}
    (h : p.line + text.count '\n' + n < 2 ^ 32) :
    ScanMoves n (scanFrom p text) (scanFrom (p.below n) text) := by
  induction p, text using scanFrom.induct with
  | case1 p =>
    have hp := Place.movesTo_below (n := n) (p := p) (by omega)
    rw [scanFrom, scanFrom]
    exact .ok (.cons ⟨rfl, rfl, hp, hp⟩ .nil)
  | case2 p c cs hc ih =>
    rw [scanFrom_of_isBlank hc, scanFrom_of_isBlank hc, Place.advance_below]
    refine ih ?_
    change (p.advanceAll [c]).line + _ + n < 2 ^ 32
    rwa [Place.line_add_count]
  | case3 p c cs hc err hread =>
    rw [scanFrom_of_error hc hread, scanFrom_of_error hc hread]
    exact .error rfl (LexicalError.movesTo_locate h err)
  | case4 p c cs hc kind length hread _ _ _ ih => exact .lexeme hc hread h ih
  | case5 p c cs hc kind length hread _ _ _ ih => exact .lexeme hc hread h ih

/-! ### Joined texts -/

/-- The line that a failed scan blames is one of the lines of its text. -/
theorem line_of_scan_eq_error (name : String) {text : String} {e : ScanError}
    (hsize : text.utf8ByteSize < 2 ^ 32 - 1) (h : scan text = .error e) :
    e.span.start.line.toNat ≠ 0 ∧ e.span.start.line.toNat ≤ SourceFile.lineCount ⟨name, text⟩ := by
  obtain ⟨before, after, htext, hstart, -⟩ := exists_failsAt h
  rw [← byteCount_toList, htext, byteCount_append] at hsize
  obtain ⟨hline, -⟩ := @Place.span_advanceAll_first before 0 (by omega)
  change (Place.first.advanceAll before).position.line.toNat = _ at hline
  rw [hstart, hline, SourceFile.lineCount_eq, htext, List.count_append]
  omega

/-- What is scanned behind a text and a newline is what would be scanned at the top. -/
theorem scanMoves_joined (name : String) {a b : String}
    (hsize : a.utf8ByteSize + b.utf8ByteSize < 2 ^ 32 - 2) :
    ScanMoves (SourceFile.lineCount ⟨name, a⟩) (scan b)
      (scanFrom ((Place.first.advanceAll a.toList).advance '\n') b.toList) := by
  have hplace : (Place.first.advanceAll a.toList).advance '\n' =
      Place.first.below (SourceFile.lineCount ⟨name, a⟩) := by
    rw [Place.advanceAll_first, SourceFile.lineCount_eq]
    show Place.mk (_ + 1 + 1) 1 = ⟨1 + (_ + 1), 1⟩
    rw [Nat.add_comm 1]
  have ha := count_add_byteCount_lastLine_le a.toList
  have hb := count_add_byteCount_lastLine_le b.toList
  rw [byteCount_toList] at ha hb
  have hcount : SourceFile.lineCount ⟨name, a⟩ = a.toList.count '\n' + 1 :=
    SourceFile.lineCount_eq _
  rw [hplace]
  refine scanFrom_below ?_
  rw [hcount]
  change 1 + _ + _ < _
  omega

/-- A diagnostic that moves with its line quotes the same line. -/
theorem ScanError.diagnostic_joined {name a b : String} {e e' : ScanError}
    (hline : e.span.start.line.toNat ≠ 0) (hfault : e'.fault = e.fault)
    (hspan : e.span.MovesTo (SourceFile.lineCount ⟨name, a⟩) e'.span) :
    e'.diagnostic ⟨name, a ++ "\n" ++ b⟩ = { e.diagnostic ⟨name, b⟩ with span := e'.span } := by
  rw [diagnostic, diagnostic, Diagnostic.located, Diagnostic.located,
    SourceFile.line?_joined_of_add hline hspan.1.1, hfault]
  rfl

/-- **Scanning is compositional over lines.** Of two texts with a newline between them, the first is
scanned as if it were alone: if that fails, it fails with the same diagnostic, and otherwise the
newline takes the place of the mark of the end. Then the second is scanned as if it were alone, as
many lines further down as the first has. -/
theorem scan_lines (name : String) {a b : String}
    (hsize : a.utf8ByteSize + b.utf8ByteSize < 2 ^ 32 - 2) :
    (∀ e, scan a = .error e → ∃ e', scan (a ++ "\n" ++ b) = .error e' ∧
      e'.diagnostic ⟨name, a ++ "\n" ++ b⟩ = e.diagnostic ⟨name, a⟩) ∧
    (∀ ts us, scan a = .ok ts → scan b = .ok us →
      ∃ init eof us', ts = init ++ [.endOfFile (.point eof)] ∧
        scan (a ++ "\n" ++ b) = .ok (init ++ ⟨.newline, "\n", .point eof⟩ :: us') ∧
        List.Forall₂ (Token.MovesTo (SourceFile.lineCount ⟨name, a⟩)) us us') ∧
    ∀ ts e, scan a = .ok ts → scan b = .error e →
      ∃ e', scan (a ++ "\n" ++ b) = .error e' ∧
        e.span.MovesTo (SourceFile.lineCount ⟨name, a⟩) e'.span ∧
        e'.diagnostic ⟨name, a ++ "\n" ++ b⟩ =
          { e.diagnostic ⟨name, b⟩ with span := e'.span } := by
  have hmoves := scanMoves_joined name hsize
  have hjoined : scan (a ++ "\n" ++ b) = scanFrom .first (a.toList ++ '\n' :: b.toList) := by
    rw [scan, toList_joined]
  rw [hjoined]
  refine ⟨?_, ?_, ?_⟩
  · intro e ha
    refine ⟨e, scanFrom_append_newline_of_error ha _, ?_⟩
    obtain ⟨-, hle⟩ := line_of_scan_eq_error name (by omega) ha
    rw [ScanError.diagnostic, ScanError.diagnostic, Diagnostic.located, Diagnostic.located,
      SourceFile.line?_joined_of_le hle]
  · intro ts us ha hb
    obtain ⟨init, hts, hscan⟩ := scanFrom_append_newline ha
    rw [hscan]
    rw [hb] at hmoves
    generalize scanFrom _ b.toList = r at hmoves ⊢
    cases hmoves with
    | ok h => exact ⟨init, _, _, hts, rfl, h⟩
  · intro ts e ha hb
    obtain ⟨init, -, hscan⟩ := scanFrom_append_newline ha
    obtain ⟨hline, -⟩ := line_of_scan_eq_error name (by omega) hb
    rw [hscan]
    rw [hb] at hmoves
    generalize scanFrom _ b.toList = r at hmoves ⊢
    cases hmoves with
    | error hfault hspan => exact ⟨_, rfl, hspan, ScanError.diagnostic_joined hline hfault hspan⟩

/-- The second text fails on its first line, which is the third of both; its carriage return is not
quoted there either. -/
theorem scan_lines_small :
    ∃ e, scan ("x\r\n" ++ "\n" ++ "y !\r") = .error e ∧ Span.MovesTo 2 (.point ⟨1, 3⟩) e.span ∧
      e.diagnostic ⟨"small", "x\r\n" ++ "\n" ++ "y !\r"⟩ =
        ⟨"small", .unexpectedCharacter, .error, .lex, "unexpected character '!'", e.span, "y !",
          some "use '!=' for inequality"⟩ := by
  have ha : scan "x\r\n" = .ok [⟨.identifier "x", "x", .point ⟨1, 1⟩⟩,
      ⟨.newline, "\n", .point ⟨1, 3⟩⟩, .endOfFile (.point ⟨2, 1⟩)] := by cbv
  have hb : scan "y !\r" = .error ⟨.unexpectedCharacter '!', .point ⟨1, 3⟩⟩ := by cbv
  obtain ⟨e, hscan, hspan, hdiagnostic⟩ := (scan_lines "small" (by decide)).2.2 _ _ ha hb
  exact ⟨e, hscan, hspan, hdiagnostic⟩

end Scriptlet
