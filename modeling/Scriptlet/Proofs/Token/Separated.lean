import Scriptlet.Proofs.Token.Layout
import Scriptlet.Proofs.Token.Lines

/-!
# Texts of tokens with blanks between them

Texts of tokens are written one after the other, with blanks around them, and with at least one
blank between a text and the next. Then a scan finds exactly these texts again.

Symbols, line ends and literals show where they end, and a number or a word goes on as long as there
are digits or letters. A blank is none of these, so every text is read to its end and no further,
whatever stands behind the blank. Nothing that is longer than one of the texts can be taken for it,
and nothing that starts like one of them is read as something else, as a lexeme is of one kind.

The lexemes of any text are texts of tokens, so they can be joined with single blanks in place of
what stood between them.

## Main definitions

* `Apart` — texts with blanks behind each of them

## Main results

* `IsLexeme.readLexeme_append_blank` — a blank ends every lexeme
* `Apart.exists_scanFrom` — texts that are apart are scanned one by one
* `scan_apart` — separated texts are scanned one to one
-/

namespace Scriptlet

/-! ### Texts that are apart -/

/-- The rest of a text is empty, or starts with a blank. -/
def AtBlank (cs : List Char) : Prop := ∀ c ∈ cs.head?, isBlank c

/-- Texts with blanks behind each of them. Only behind the last one may there be none. -/
inductive Apart : List (List Char) → List Char → Prop
  | nil : Apart [] []
  | cons {lexeme blanks lexemes text} (hb : Blank blanks) (hsep : lexemes ≠ [] → blanks ≠ [])
      (h : Apart lexemes text) : Apart (lexeme :: lexemes) (lexeme ++ (blanks ++ text))

/-- What follows a text, up to the next one, starts with a blank. -/
theorem Apart.atBlank {lexemes : List (List Char)} {blanks text : List Char}
    (h : Apart lexemes text) (hb : Blank blanks) (hsep : lexemes ≠ [] → blanks ≠ []) :
    AtBlank (blanks ++ text) := by
  cases blanks with
  | cons b bs =>
    rintro c ⟨⟩
    exact hb b List.mem_cons_self
  | nil =>
    cases h with
    | nil => simp [AtBlank]
    | cons => exact absurd rfl (hsep (List.cons_ne_nil _ _))

/-- Joining with single blanks keeps texts apart, also with one more blank at the end. -/
theorem apart_intercalate (lexemes : List (List Char)) {last : List (List Char)}
    (hlast : last = [] ∨ last = [[]]) :
    Apart lexemes (List.intercalate [' '] (lexemes ++ last)) := by
  have hblank : Blank [' '] := by simp [Blank, isBlank]
  induction lexemes with
  | nil => rcases hlast with rfl | rfl <;> exact .nil
  | cons lexeme lexemes ih =>
    rw [List.cons_append]
    cases hrest : lexemes ++ last with
    | nil =>
      obtain ⟨rfl, -⟩ := List.append_eq_nil_iff.1 hrest
      simpa using @Apart.cons lexeme [] [] [] (List.forall_mem_nil _) (by simp) .nil
    | cons next rest =>
      rw [hrest] at ih
      rw [List.intercalate_cons_cons, List.append_assoc]
      exact .cons hblank (by simp) ih

/-! ### A blank ends a lexeme -/

theorem takeWhile_append_blank {P : Char → Bool} (hP : ∀ c, isBlank c → ¬ P c) {cs rest : List Char}
    (hcs : ∀ c ∈ cs, P c) (hrest : AtBlank rest) : (cs ++ rest).takeWhile P = cs := by
  have hnone : rest.takeWhile P = [] := by
    cases rest with
    | nil => rfl
    | cons c rest => exact List.takeWhile_cons_of_neg (hP c (hrest c rfl))
  rw [List.takeWhile_append_of_pos hcs, hnone, List.append_nil]

theorem not_isWordChar_of_isBlank {c : Char} (hc : isBlank c) : ¬ isWordChar c := by
  have hblank : c = ' ' ∨ c = '\t' ∨ c = '\r' := by simpa [isBlank, or_assoc] using hc
  rcases hblank with rfl | rfl | rfl <;> decide

/-- **A blank ends every lexeme.** -/
theorem IsLexeme.readLexeme_append_blank {kind : Token.Kind} {c : Char} {cs rest : List Char}
    (h : IsLexeme kind (c :: cs)) (hrest : AtBlank rest) :
    readLexeme c (cs ++ rest) = .ok (kind, cs.length) := by
  generalize hlexeme : c :: cs = lexeme at h
  cases h with
  | newline =>
    cases hlexeme
    rfl
  | number _ hd =>
    subst hlexeme
    obtain ⟨hc, hcs⟩ := List.forall_mem_cons.1 hd
    have hstop : ∀ c, isBlank c → ¬ c.isDigit := fun c hc hd =>
      not_isWordChar_of_isBlank hc (isWordChar_of_isDigit hd)
    rw [readLexeme_of_isDigit hc, takeWhile_append_blank hstop hcs hrest]
  | word hw =>
    obtain ⟨hd, hw⟩ := isWord_iff.1 hw
    cases hlexeme
    obtain ⟨hc, hcs⟩ := List.forall_mem_cons.1 hw
    have hstop : ∀ c, isBlank c → ¬ isWordChar c := fun c => not_isWordChar_of_isBlank
    rw [readLexeme_of_isWordChar hd hc, takeWhile_append_blank hstop hcs hrest]
  | string h =>
    cases hlexeme
    exact readLexeme_quote (readString_append_of_eq_ok h rest)
  | symbol s => exact readLexeme_symbol hlexeme.symm rest

/-! ### Scanning -/

theorem scanFrom_blanks {blanks : List Char} (hb : Blank blanks) (p : Place) (text : List Char) :
    scanFrom p (blanks ++ text) = scanFrom (p.advanceAll blanks) text := by
  induction blanks generalizing p with
  | nil => rfl
  | cons b bs ih =>
    obtain ⟨hb, hbs⟩ := List.forall_mem_cons.1 hb
    rw [List.cons_append, scanFrom_of_isBlank hb, ih hbs, Place.advanceAll_cons]

/-- A lexeme in front of a blank, or at the end, is scanned as a whole. -/
theorem IsLexeme.scanFrom_append {kind : Token.Kind} {lexeme rest : List Char}
    (h : IsLexeme kind lexeme) (hrest : AtBlank rest) (p : Place) :
    scanFrom p (lexeme ++ rest) =
      (scanFrom (p.advanceAll lexeme) rest).map (.ofLexeme p kind lexeme :: ·) := by
  obtain ⟨c, cs, rfl⟩ := List.exists_cons_of_ne_nil h.ne_nil
  rw [List.cons_append, scanFrom_of_ok h.not_isBlank (h.readLexeme_append_blank hrest),
    List.take_left, List.drop_left]

/-- Scanned alone, a lexeme is one token. -/
theorem IsLexeme.scan {kind : Token.Kind} {lexeme : List Char} (h : IsLexeme kind lexeme) :
    ∃ span, Scriptlet.scan (String.ofList lexeme) =
      .ok [.ofLexeme .first kind lexeme, .endOfFile span] := by
  have hscan := h.scanFrom_append (show AtBlank [] by simp [AtBlank]) .first
  rw [List.append_nil, scanFrom] at hscan
  exact ⟨_, by rw [Scriptlet.scan, String.toList_ofList, hscan]; rfl⟩

/-- **Texts that are apart are scanned one by one.** -/
theorem Apart.exists_scanFrom {lexemes : List (List Char)} {text : List Char}
    (h : Apart lexemes text) (hl : ∀ l ∈ lexemes, ∃ kind, IsLexeme kind l) (p : Place) :
    ∃ ts span, scanFrom p text = .ok (ts ++ [.endOfFile span]) ∧
      ts.map (fun t => t.lexeme.toList) = lexemes ∧
      ∀ t ∈ ts, IsLexeme t.kind t.lexeme.toList := by
  induction h generalizing p with
  | nil => exact ⟨[], .point p.position, by rw [scanFrom]; rfl, rfl, List.forall_mem_nil _⟩
  | @cons lexeme blanks lexemes text hb hsep h ih =>
    obtain ⟨⟨kind, hlexeme⟩, hl⟩ := List.forall_mem_cons.1 hl
    obtain ⟨ts, span, hscan, hts, hkinds⟩ := ih hl ((p.advanceAll lexeme).advanceAll blanks)
    refine ⟨.ofLexeme p kind lexeme :: ts, span, ?_, ?_, ?_⟩
    · rw [hlexeme.scanFrom_append (h.atBlank hb hsep), scanFrom_blanks hb, hscan]
      rfl
    · rw [List.map_cons, hts, Token.ofLexeme, String.toList_ofList]
    · refine List.forall_mem_cons.2 ⟨?_, hkinds⟩
      rw [Token.ofLexeme, String.toList_ofList]
      exact hlexeme

/-- Tokens with the same lexemes are of the same kinds. -/
theorem kinds_eq_of_lexemes {ts us : List Token}
    (hts : ∀ t ∈ ts, IsLexeme t.kind t.lexeme.toList)
    (hus : ∀ u ∈ us, IsLexeme u.kind u.lexeme.toList)
    (h : us.map (fun u => u.lexeme.toList) = ts.map fun t => t.lexeme.toList) :
    us.map Token.kind = ts.map Token.kind := by
  induction us generalizing ts with
  | nil =>
    rw [List.map_nil, eq_comm, List.map_eq_nil_iff] at h
    rw [h]
  | cons u us ih =>
    cases ts with
    | nil => cases h
    | cons t ts =>
      obtain ⟨ht, hts⟩ := List.forall_mem_cons.1 hts
      obtain ⟨hu, hus⟩ := List.forall_mem_cons.1 hus
      obtain ⟨hlexeme, hrest⟩ := List.cons.inj h
      rw [show u.lexeme.toList = t.lexeme.toList from hlexeme] at hu
      have hkind : u.kind = t.kind := hu.kind_unique ht
      rw [List.map_cons, List.map_cons, hkind, ih hts hus hrest]

/-- **Separated texts are scanned one to one.** Take texts of tokens with blanks around them, and at
least one blank between a text and the next. A scan gives these texts as lexemes, in order, and then
the mark of the end. Each is of the kind that it spells, which is the one that it has when it is
scanned alone. So the lexemes of a text that can be scanned, with the empty one of the end or
without it, can be joined with single blanks, and a scan finds the same kinds and lexemes again. -/
theorem scan_apart :
    (∀ (lexemes : List (List Char)) (blanks text : List Char),
      (∀ l ∈ lexemes, ∃ kind, Spells l kind) → Blank blanks → Apart lexemes text →
        ∃ ts span, scan (String.ofList (blanks ++ text)) = .ok (ts ++ [.endOfFile span]) ∧
          ts.map (fun t => t.lexeme.toList) = lexemes ∧
          ∀ t ∈ ts, Spells t.lexeme.toList t.kind ∧ ∃ alone span',
            scan t.lexeme = .ok [alone, .endOfFile span'] ∧ alone.kind = t.kind ∧
              alone.lexeme = t.lexeme) ∧
    ∀ (text : String) (ts : List Token), scan text = .ok ts →
      ∀ l, l = ts ∨ l = ts.dropLast →
        ∃ us, scan (String.intercalate " " (l.map Token.lexeme)) = .ok us ∧
          us.map Token.kind = ts.map Token.kind ∧ us.map Token.lexeme = ts.map Token.lexeme := by
  constructor
  · intro lexemes blanks text hl hb h
    have hlexemes : ∀ l ∈ lexemes, ∃ kind, IsLexeme kind l := fun l hmem =>
      (hl l hmem).imp fun _ => spells_iff.1
    obtain ⟨ts, span, hscan, hts, hkinds⟩ := h.exists_scanFrom hlexemes (.advanceAll .first blanks)
    refine ⟨ts, span, ?_, hts, fun t ht => ⟨spells_iff.2 (hkinds t ht), ?_⟩⟩
    · rw [scan, String.toList_ofList, scanFrom_blanks hb, hscan]
    · obtain ⟨span', halone⟩ := (hkinds t ht).scan
      rw [String.ofList_toList] at halone
      exact ⟨_, span', halone, rfl, String.ofList_toList⟩
  · intro text ts h l hl
    obtain ⟨row, hrow, rfl, -⟩ := scanFrom_sound h
    obtain ⟨init, blanks, span, rfl, hinit⟩ := hrow.exists_concat
    have hproper : ∀ t ∈ init.map Spaced.token, IsLexeme t.kind t.lexeme.toList :=
      List.forall_mem_map.2 fun s hs => (hinit s hs).2
    rw [List.map_append] at hl ⊢
    generalize init.map Spaced.token = ts at hproper hl ⊢
    obtain ⟨last, hlast, hjoined⟩ : ∃ last, (last = [] ∨ last = [[]]) ∧
        l.map (fun t => t.lexeme.toList) = ts.map (fun t => t.lexeme.toList) ++ last := by
      rcases hl with rfl | rfl
      · exact ⟨[[]], .inr rfl, by simp [Token.endOfFile]⟩
      · exact ⟨[], .inl rfl, by simp⟩
    have happart := apart_intercalate (ts.map fun t => t.lexeme.toList) hlast
    obtain ⟨us, span', hscan, hus, hkinds⟩ :=
      happart.exists_scanFrom (List.forall_mem_map.2 fun t ht => ⟨_, hproper t ht⟩) .first
    have hlexemes : us.map Token.lexeme = ts.map Token.lexeme := by
      have := congrArg (List.map String.ofList) hus
      simpa [Function.comp_def] using this
    refine ⟨us ++ [.endOfFile span'], ?_, ?_, ?_⟩
    · rw [scan, String.toList_intercalate, List.map_map]
      rw [← hjoined] at hscan
      exact hscan
    · rw [List.map_append, List.map_append, kinds_eq_of_lexemes hproper hkinds hus]
      rfl
    · rw [List.map_append, List.map_append, hlexemes]
      rfl

/-- The literal has a blank and an escape inside, and the line end has blanks around it. -/
theorem scan_apart_small :
    let lexemes : List (List Char) := [['"', ' ', '\\', 't', '"'], ['\n'], ['=', '='], ['0', '7']]
    let text : List Char :=
      ['"', ' ', '\\', 't', '"', ' ', '\r', '\n', ' ', '=', '=', '\t', '0', '7']
    Apart lexemes text ∧
      ∃ ts span us, scan (String.ofList ('\t' :: text)) = .ok (ts ++ [.endOfFile span]) ∧
        ts.map (fun t => t.lexeme.toList) = lexemes ∧
        scan (String.intercalate " " (ts.map Token.lexeme)) = .ok us ∧
        us.map Token.kind = ts.map Token.kind ++ [.endOfFile] := by
  intro lexemes text
  have hliteral : Contents [' ', '\\', 't'] [' ', '\t'] :=
    .cons (.plain (by decide) (by decide) (by decide)) (.cons (.escape (by decide)) .nil)
  have hdigits : ∀ d ∈ ['0', '7'], d.isDigit := by simp
  have hspells : ∀ l ∈ lexemes, ∃ kind, Spells l kind :=
    List.forall_mem_cons.2 ⟨⟨_, .string hliteral⟩, List.forall_mem_cons.2 ⟨⟨_, .newline⟩,
      List.forall_mem_cons.2 ⟨⟨_, .symbol .eqEq⟩, List.forall_mem_singleton.2
        ⟨_, .number (List.cons_ne_nil _ _) hdigits⟩⟩⟩⟩
  have hblank : ∀ bs : List Char, (bs.all isBlank) → Blank bs := fun _ => List.all_eq_true.1
  have happart : Apart lexemes text :=
    @Apart.cons _ [' ', '\r'] _ _ (hblank _ (by decide)) (by simp)
      (@Apart.cons _ [' '] _ _ (hblank _ (by decide)) (by simp)
        (@Apart.cons _ ['\t'] _ _ (hblank _ (by decide)) (by simp)
          (@Apart.cons _ [] _ _ (hblank _ (by decide)) (by simp) .nil)))
  obtain ⟨ts, span, hscan, hts, -⟩ :=
    scan_apart.1 lexemes ['\t'] text hspells (hblank _ (by decide)) happart
  obtain ⟨us, hus, hkinds, -⟩ := scan_apart.2 _ _ hscan _ (.inr rfl)
  rw [List.dropLast_concat] at hus
  exact ⟨happart, ts, span, us, hscan, hts, hus, by rw [hkinds, List.map_append]; rfl⟩

end Scriptlet
