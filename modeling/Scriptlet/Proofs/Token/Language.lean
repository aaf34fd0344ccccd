import Mathlib.Data.List.TakeWhile
import Scriptlet.Proofs.Token.Spelling
import Scriptlet.Token.Scan

/-!
# The language of the scanner

Which texts can be scanned, told without a scanner: those that can be cut into pieces, each of them
a blank, a line end, a symbol, a number, a word or a string literal. The cuts may be anywhere, so
`12abc` is a number and a word, and `=====` is a text only if it is followed by one more `=`.

A scanner cannot try all cuts. It takes the longest piece it can, and this module shows that it
loses no text by that. Symbols, line ends and literals show where they end, so what is behind such a
piece is not touched. Numbers and words do not, and a scanner may run on into the pieces behind
them. But a run of digits, or of letters and digits, stops in front of the first piece that starts
with another character, and every piece before that one is part of the run as a whole. So what is
left is again a row of pieces.

## Main definitions

* `IsPiece`, `LeftmostLongest` — pieces of a text, and the cuts of a reader who takes the longest
* `TokensOf` — the tokens of a row of pieces

## Main results

* `IsLexeme.exists_rest` — behind the longest lexeme, pieces are left
* `exists_scanFrom_of_pieces` — no row of pieces is missed
* `LeftmostLongest.unique`, `exists_leftmostLongest` — the cuts that a scan makes
* `scanFrom_eq_error` — where a scan fails
* `scan_language` — the texts that can be scanned, and their tokens
-/

namespace Scriptlet

/-! ### Pieces -/

/-- A character between tokens. -/
def IsSeparator (p : List Char) : Prop := p = [' '] ∨ p = ['\t'] ∨ p = ['\r']

/-- What a text can be cut into. -/
def IsPiece (p : List Char) : Prop := IsSeparator p ∨ ∃ kind, Spells p kind

theorem isSeparator_iff {p : List Char} : IsSeparator p ↔ ∃ c, isBlank c ∧ p = [c] := by
  simp [IsSeparator, isBlank, or_and_right, exists_or, or_assoc]

theorem IsLexeme.not_isBlank {kind : Token.Kind} {c : Char} {cs : List Char}
    (h : IsLexeme kind (c :: cs)) : ¬ isBlank c := by
  intro hc
  obtain ⟨kind', n, hread, -⟩ := h.readLexeme_append []
  have hblank : c = ' ' ∨ c = '\t' ∨ c = '\r' := by simpa [isBlank, or_assoc] using hc
  rcases hblank with rfl | rfl | rfl <;> cases hread

theorem IsLexeme.isPiece {kind : Token.Kind} {lexeme : List Char} (h : IsLexeme kind lexeme) :
    IsPiece lexeme := .inr ⟨kind, spells_iff.2 h⟩

theorem IsLexeme.not_isSeparator {kind : Token.Kind} {lexeme : List Char}
    (h : IsLexeme kind lexeme) : ¬ IsSeparator lexeme := by
  intro hs
  obtain ⟨c, hc, rfl⟩ := isSeparator_iff.1 hs
  exact h.not_isBlank hc

/-- A piece is a blank, or a lexeme that starts with none. -/
theorem isPiece_cases {p : List Char} (h : IsPiece p) :
    (∃ c, isBlank c ∧ p = [c]) ∨ ∃ c cs kind, p = c :: cs ∧ IsLexeme kind (c :: cs) := by
  rcases h with h | ⟨kind, h⟩
  · exact .inl (isSeparator_iff.1 h)
  · rw [spells_iff] at h
    obtain ⟨c, cs, rfl⟩ := List.exists_cons_of_ne_nil h.ne_nil
    exact .inr ⟨c, cs, kind, rfl, h⟩

/-! ### Runs over pieces -/

/-- If the first character of a text is in a class, all of them are. -/
def Whole (P : Char → Bool) (p : List Char) : Prop := ∀ c ∈ p.head?, P c → ∀ d ∈ p, P d

theorem IsPiece.whole_isDigit {p : List Char} (hp : IsPiece p) : Whole Char.isDigit p := by
  obtain ⟨c, -, rfl⟩ | ⟨c, cs, kind, rfl, h⟩ := isPiece_cases hp
  · simp [Whole]
  · intro d hd hdigit
    cases hd
    generalize hl : c :: cs = lexeme at h ⊢
    cases h with
    | number _ hds => exact hds
    | word hw => cases hl; exact absurd hdigit hw.1.not_isDigit
    | newline | string => cases hl; exact absurd hdigit (by decide)
    | symbol s => cases s <;> cases hl <;> exact absurd hdigit (by decide)

theorem IsPiece.whole_isWordChar {p : List Char} (hp : IsPiece p) : Whole isWordChar p := by
  obtain ⟨c, -, rfl⟩ | ⟨c, cs, kind, rfl, h⟩ := isPiece_cases hp
  · simp [Whole]
  · intro d hd hword
    cases hd
    generalize hl : c :: cs = lexeme at h ⊢
    cases h with
    | number _ hds => exact fun d hd => isWordChar_of_isDigit (hds d hd)
    | word hw => exact (isWord_iff.1 hw).2
    | newline | string => cases hl; exact absurd hword (by decide)
    | symbol s => cases s <;> cases hl <;> exact absurd hword (by decide)

/-- A run of characters of a class ends where a piece does. -/
theorem dropWhile_flatten {P : Char → Bool} {ps : List (List Char)} (h : ∀ p ∈ ps, Whole P p) :
    ∃ qs, qs <:+ ps ∧ ps.flatten.dropWhile P = qs.flatten := by
  induction ps with
  | nil => exact ⟨[], List.suffix_rfl, rfl⟩
  | cons p ps ih =>
    obtain ⟨hp, hps⟩ := List.forall_mem_cons.1 h
    by_cases hrun : ∀ d ∈ p, P d
    · obtain ⟨qs, hqs, hdrop⟩ := ih hps
      refine ⟨qs, hqs.trans (List.suffix_cons p ps), ?_⟩
      rw [List.flatten_cons, List.dropWhile_append_of_pos hrun, hdrop]
    · refine ⟨p :: ps, List.suffix_rfl, ?_⟩
      cases p with
      | nil => exact absurd (List.forall_mem_nil _) hrun
      | cons c cs => exact List.dropWhile_cons_of_neg fun hc => hrun (hp c rfl hc)

theorem drop_length_takeWhile {α : Type} (P : α → Bool) (l : List α) :
    l.drop (l.takeWhile P).length = l.dropWhile P := by
  calc l.drop (l.takeWhile P).length
      = (l.takeWhile P ++ l.dropWhile P).drop (l.takeWhile P).length := by
        rw [List.takeWhile_append_dropWhile]
    _ = l.dropWhile P := List.drop_left

/-- A run of characters of a class that starts in a piece leaves a row of pieces. -/
theorem exists_pieces_of_run {P : Char → Bool} (hP : ∀ p, IsPiece p → Whole P p) {cs : List Char}
    (hcs : ∀ c ∈ cs, P c) {ps : List (List Char)} (hps : ∀ p ∈ ps, IsPiece p) :
    ∃ qs : List (List Char), (∀ q ∈ qs, IsPiece q) ∧
      (cs ++ ps.flatten).drop ((cs ++ ps.flatten).takeWhile P).length = qs.flatten := by
  obtain ⟨qs, hqs, hdrop⟩ := dropWhile_flatten fun p hp => hP p (hps p hp)
  refine ⟨qs, fun q hq => hps q (hqs.subset hq), ?_⟩
  rw [drop_length_takeWhile, List.dropWhile_append_of_pos hcs, hdrop]

/-- **What is left behind the lexeme that is read is a row of pieces again.** -/
theorem IsLexeme.exists_rest {kind : Token.Kind} {c : Char} {cs : List Char}
    (h : IsLexeme kind (c :: cs)) {ps : List (List Char)} (hps : ∀ p ∈ ps, IsPiece p) :
    ∃ (kind' : Token.Kind) (n : Nat) (qs : List (List Char)),
      readLexeme c (cs ++ ps.flatten) = .ok (kind', n) ∧ (∀ q ∈ qs, IsPiece q) ∧
        (cs ++ ps.flatten).drop n = qs.flatten := by
  generalize hlexeme : c :: cs = lexeme at h
  cases h with
  | newline =>
    cases hlexeme
    exact ⟨_, _, ps, rfl, hps, rfl⟩
  | number _ hd =>
    subst hlexeme
    obtain ⟨hc, hcs⟩ := List.forall_mem_cons.1 hd
    obtain ⟨qs, hqs, hrest⟩ := exists_pieces_of_run (fun _ => IsPiece.whole_isDigit) hcs hps
    exact ⟨_, _, qs, readLexeme_of_isDigit hc _, hqs, hrest⟩
  | word hw =>
    cases hlexeme
    obtain ⟨hd, hw⟩ := isWord_iff.1 hw
    obtain ⟨hc, hcs⟩ := List.forall_mem_cons.1 hw
    obtain ⟨qs, hqs, hrest⟩ := exists_pieces_of_run (fun _ => IsPiece.whole_isWordChar) hcs hps
    exact ⟨_, _, qs, readLexeme_of_isWordChar hd hc _, hqs, hrest⟩
  | string h =>
    cases hlexeme
    exact ⟨_, _, ps, readLexeme_quote (readString_append_of_eq_ok h _), hps, List.drop_left⟩
  | symbol s => exact ⟨_, _, ps, readLexeme_symbol hlexeme.symm _, hps, List.drop_left⟩

/-- A row of pieces that starts with no blank starts with a lexeme. -/
theorem exists_lexeme {c : Char} {cs : List Char} {ps : List (List Char)}
    (hps : ∀ p ∈ ps, IsPiece p) (htext : ps.flatten = c :: cs) (hc : ¬ isBlank c) :
    ∃ (kind : Token.Kind) (ds : List Char) (qs : List (List Char)), IsLexeme kind (c :: ds) ∧
      (∀ q ∈ qs, IsPiece q) ∧ cs = ds ++ qs.flatten := by
  obtain _ | ⟨p, ps⟩ := ps
  · cases htext
  obtain ⟨hp, hqs⟩ := List.forall_mem_cons.1 hps
  rw [List.flatten_cons] at htext
  obtain ⟨d, hd, rfl⟩ | ⟨d, ds, kind, rfl, hl⟩ := isPiece_cases hp
  · rw [(List.cons.inj htext).1] at hd
    exact absurd hd hc
  · obtain ⟨rfl, rfl⟩ := List.cons.inj htext
    exact ⟨kind, ds, ps, hl, hqs, rfl⟩

/-- **No row of pieces is missed**: a scanner reads to its end. -/
theorem exists_scanFrom_of_pieces {ps : List (List Char)} (hps : ∀ p ∈ ps, IsPiece p) (p : Place) :
    ∃ ts, scanFrom p ps.flatten = .ok ts := by
  generalize htext : ps.flatten = text
  fun_induction scanFrom p text generalizing ps with
  | case1 => exact ⟨_, rfl⟩
  | case2 p c cs hc ih =>
    obtain _ | ⟨q, qs⟩ := ps
    · cases htext
    obtain ⟨hq, hqs⟩ := List.forall_mem_cons.1 hps
    obtain ⟨d, hd, rfl⟩ | ⟨d, ds, kind, rfl, hl⟩ := isPiece_cases hq
    · exact ih hqs (List.cons.inj htext).2
    · rw [(List.cons.inj htext).1] at hl
      exact absurd hc hl.not_isBlank
  | case3 p c cs hc e hread =>
    obtain ⟨kind, ds, qs, hl, hqs, rfl⟩ := exists_lexeme hps htext hc
    obtain ⟨_, _, _, hread', -⟩ := hl.exists_rest hqs
    cases hread.symm.trans hread'
  | case4 p c cs hc kind n hread lexeme e hrest =>
    rename_i ih
    obtain ⟨kind', ds, qs, hl, hqs, rfl⟩ := exists_lexeme hps htext hc
    obtain ⟨_, _, qs, hread', hqs, hdrop⟩ := hl.exists_rest hqs
    cases hread.symm.trans hread'
    obtain ⟨ts, hts⟩ := ih hqs hdrop.symm
    cases hrest.symm.trans hts
  | case5 => exact ⟨_, rfl⟩

/-! ### The longest pieces -/

/-- Cuts of a text such that each piece is the longest that starts where it does. -/
inductive LeftmostLongest : List (List Char) → Prop
  | nil : LeftmostLongest []
  | cons {p ps} (hp : IsPiece p)
      (hlongest : ∀ q, IsPiece q → q <+: p ++ ps.flatten → q.length ≤ p.length)
      (hps : LeftmostLongest ps) : LeftmostLongest (p :: ps)

/-- The tokens of a text by its pieces: separators have none, and the kind of each token is the one
that its lexeme spells. -/
inductive TokensOf : List (List Char) → List Token → Prop
  | stop (span : Span) : TokensOf [] [.endOfFile span]
  | separator {p ps ts} (hp : IsSeparator p) (h : TokensOf ps ts) : TokensOf (p :: ps) ts
  | token {p ps t ts} (hp : ¬ IsSeparator p) (hl : t.lexeme.toList = p)
      (hk : ∀ kind, Spells p kind ↔ kind = t.kind) (h : TokensOf ps ts) :
      TokensOf (p :: ps) (t :: ts)

theorem LeftmostLongest.isPiece {ps : List (List Char)} (h : LeftmostLongest ps) :
    ∀ p ∈ ps, IsPiece p := by
  induction h with
  | nil => exact List.forall_mem_nil _
  | cons hp _ _ ih => exact List.forall_mem_cons.2 ⟨hp, ih⟩

theorem IsPiece.ne_nil {p : List Char} (h : IsPiece p) : p ≠ [] := by
  obtain ⟨c, -, rfl⟩ | ⟨c, cs, kind, rfl, -⟩ := isPiece_cases h <;> exact List.cons_ne_nil _ _

/-- There is one way to take the longest pieces. -/
theorem LeftmostLongest.unique {ps qs : List (List Char)} (hps : LeftmostLongest ps)
    (hqs : LeftmostLongest qs) (h : ps.flatten = qs.flatten) : ps = qs := by
  induction hps generalizing qs with
  | nil =>
    cases hqs with
    | nil => rfl
    | @cons q qs hq _ _ =>
      rw [List.flatten_nil, List.flatten_cons, eq_comm, List.append_eq_nil_iff] at h
      exact absurd h.1 hq.ne_nil
  | @cons p ps hp hlongest _ ih =>
    cases hqs with
    | nil =>
      rw [List.flatten_nil, List.flatten_cons, List.append_eq_nil_iff] at h
      exact absurd h.1 hp.ne_nil
    | @cons q qs hq hlongest' hqs =>
      rw [List.flatten_cons, List.flatten_cons] at h
      have hle := hlongest q hq (h ▸ List.prefix_append q _)
      have hle' := hlongest' p hp (h ▸ List.prefix_append p _)
      obtain ⟨rfl, hrest⟩ := List.append_inj h (Nat.le_antisymm hle' hle)
      rw [ih hqs hrest]

/-- **What is scanned is cut into the longest pieces.** -/
theorem exists_leftmostLongest {p : Place} {text : List Char} {ts : List Token}
    (h : scanFrom p text = .ok ts) :
    ∃ ps, LeftmostLongest ps ∧ ps.flatten = text ∧ TokensOf ps ts := by
  fun_induction scanFrom p text generalizing ts with
  | case1 p =>
    cases h
    exact ⟨[], .nil, rfl, .stop _⟩
  | case2 p c cs hc ih =>
    obtain ⟨ps, hps, rfl, hts⟩ := ih h
    have hsep : IsSeparator [c] := isSeparator_iff.2 ⟨c, hc, rfl⟩
    refine ⟨[c] :: ps, .cons (.inl hsep) ?_ hps, rfl, .separator hsep hts⟩
    intro q hq hprefix
    obtain ⟨d, -, rfl⟩ | ⟨d, ds, kind, rfl, hl⟩ := isPiece_cases hq
    · exact Nat.le_refl _
    · obtain ⟨rest, hrest⟩ := hprefix
      rw [(List.cons.inj hrest).1] at hl
      exact absurd hc hl.not_isBlank
  | case3 | case4 => cases h
  | case5 p c cs hc kind n hread lexeme tokens hrest =>
    rename_i ih
    cases h
    obtain ⟨ps, hps, hflatten, hts⟩ := ih hrest
    obtain ⟨hn, hl⟩ := readLexeme_sound hread
    have htext : lexeme ++ ps.flatten = c :: cs := by
      rw [hflatten, List.cons_append, List.take_append_drop]
    have htoken : (Token.ofLexeme p kind lexeme).lexeme.toList = lexeme := String.toList_ofList
    refine ⟨lexeme :: ps, .cons hl.isPiece ?_ hps, htext,
      .token hl.not_isSeparator htoken (fun k => ⟨fun hk => ?_, fun hk => ?_⟩) hts⟩
    · intro q hq hprefix
      rw [htext] at hprefix
      rw [List.length_cons, List.length_take_of_le hn]
      obtain ⟨d, -, rfl⟩ | ⟨d, ds, kind', rfl, hd⟩ := isPiece_cases hq
      · exact Nat.le_add_left ..
      · obtain ⟨rest, hrest⟩ := hprefix
        obtain ⟨rfl, rfl⟩ := List.cons.inj hrest
        obtain ⟨k, m, hread', hle, -⟩ := hd.readLexeme_append rest
        cases hread.symm.trans hread'
        exact Nat.succ_le_succ hle
    · exact (spells_iff.1 hk).kind_unique hl
    · exact spells_iff.2 (hk ▸ hl)

/-! ### Failing -/

/-- **Where a scan fails**: behind some pieces, at a character that no lexeme can be read from. -/
theorem scanFrom_eq_error {p : Place} {text : List Char} {e : ScanError}
    (h : scanFrom p text = .error e) :
    ∃ (ps : List (List Char)) (c : Char) (cs : List Char) (err : LexicalError),
      (∀ q ∈ ps, IsPiece q) ∧ text = ps.flatten ++ c :: cs ∧ ¬ isBlank c ∧
      readLexeme c cs = .error err ∧ e = err.locate (p.advanceAll ps.flatten) (c :: cs) := by
  fun_induction scanFrom p text with
  | case1 | case5 => cases h
  | case2 p c cs hc ih =>
    obtain ⟨ps, d, ds, err, hps, rfl, hd, hread, rfl⟩ := ih h
    exact ⟨[c] :: ps, d, ds, err,
      List.forall_mem_cons.2 ⟨.inl (isSeparator_iff.2 ⟨c, hc, rfl⟩), hps⟩, rfl, hd, hread, rfl⟩
  | case3 p c cs hc err hread =>
    cases h
    exact ⟨[], c, cs, err, List.forall_mem_nil _, rfl, hc, hread, rfl⟩
  | case4 p c cs hc kind n hread lexeme err hrest =>
    rename_i ih
    cases h
    obtain ⟨ps, d, ds, err, hps, htext, hd, hread', rfl⟩ := ih hrest
    refine ⟨lexeme :: ps, d, ds, err,
      List.forall_mem_cons.2 ⟨(readLexeme_sound hread).2.isPiece, hps⟩, ?_, hd, hread', ?_⟩
    · rw [List.flatten_cons, List.append_assoc, ← htext, List.cons_append, List.take_append_drop]
    · rw [List.flatten_cons, Place.advanceAll_append]

/-- A scan never stops at a digit. -/
theorem not_isDigit_of_unexpectedCharacter {c d : Char} {cs : List Char} {e : LexicalError}
    (h : readLexeme c cs = .error e) (hfault : e.fault = .unexpectedCharacter d) :
    ¬ d.isDigit := by
  obtain ⟨-, e', hspoilt, rfl⟩ | rfl := readLexeme_eq_error h
  · obtain ⟨_, _, -, -, -, rfl⟩ | ⟨_, _, _, _, -, -, -, -, rfl⟩ := hspoilt <;> cases hfault
  · cases hfault
    intro hc
    rw [readLexeme_of_isDigit hc] at h
    cases h

theorem toList_prefix_append (s t : String) : s.toList <+: (s ++ t).toList := by
  rw [String.toList_append]
  exact List.prefix_append ..

/-- No message is about a number. -/
theorem LexicalFault.not_invalidNumber (f : LexicalFault) :
    ¬ "invalid number literal".toList <+: f.message.toList := by
  -- how each message starts is enough to tell them apart
  have hopening : ∃ opening : String, opening.toList <+: f.message.toList ∧
      "invalid n".toList.length ≤ opening.toList.length ∧
        ¬ "invalid n".toList <+: opening.toList := by
    cases f with
    | unexpectedCharacter c =>
      exact ⟨"unexpected character '",
        (toList_prefix_append _ _).trans (toList_prefix_append _ "'"), by decide, by decide⟩
    | unterminatedString =>
      exact ⟨"unterminated string literal", List.prefix_rfl, by decide, by decide⟩
    | invalidEscape c =>
      exact ⟨"invalid escape sequence '\\",
        (toList_prefix_append _ _).trans (toList_prefix_append _ "'"), by decide, by decide⟩
  obtain ⟨opening, hprefix, hlength, hopening⟩ := hopening
  intro h
  have hnumber : "invalid n".toList <+: "invalid number literal".toList := by decide
  exact hopening (List.prefix_of_prefix_length_le (hnumber.trans h) hprefix hlength)

/-- **The scanner accepts exactly its language.** A text can be scanned if and only if it can be cut
into pieces. Its tokens are those of the longest pieces, from the left; the kind of each, with what
it stands for, is the only one that its lexeme spells. A scan never stops at a digit, and no digits
are ever refused as a number. -/
theorem scan_language (text : String) :
    ((∃ ts, scan text = .ok ts) ↔
      ∃ ps : List (List Char), (∀ p ∈ ps, IsPiece p) ∧ ps.flatten = text.toList) ∧
    (∀ ts, scan text = .ok ts →
      ∃ ps, LeftmostLongest ps ∧ ps.flatten = text.toList ∧ TokensOf ps ts ∧
        ∀ qs, LeftmostLongest qs → qs.flatten = text.toList → qs = ps) ∧
    ∀ e, scan text = .error e →
      (∀ c, e.fault = .unexpectedCharacter c → ¬ c.isDigit) ∧
        ¬ "invalid number literal".toList <+: e.fault.message.toList := by
  refine ⟨⟨?_, ?_⟩, ?_, ?_⟩
  · rintro ⟨ts, h⟩
    obtain ⟨ps, hps, htext, -⟩ := exists_leftmostLongest h
    exact ⟨ps, hps.isPiece, htext⟩
  · rintro ⟨ps, hps, htext⟩
    rw [scan, ← htext]
    exact exists_scanFrom_of_pieces hps .first
  · intro ts h
    obtain ⟨ps, hps, htext, hts⟩ := exists_leftmostLongest h
    exact ⟨ps, hps, htext, hts, fun qs hqs hflatten => hqs.unique hps (hflatten.trans htext.symm)⟩
  · intro e h
    obtain ⟨ps, c, cs, err, -, -, -, hread, rfl⟩ := scanFrom_eq_error h
    exact ⟨fun d hfault => not_isDigit_of_unexpectedCharacter hread hfault,
      LexicalFault.not_invalidNumber _⟩

end Scriptlet
