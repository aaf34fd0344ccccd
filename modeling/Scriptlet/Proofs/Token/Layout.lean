import Mathlib
import Scriptlet.Proofs.Source.Line
import Scriptlet.Proofs.Token.Lexeme
import Scriptlet.Token.Scan

/-!
# How tokens are laid out

Give each token the blanks that stand before it. Then the tokens of a text, written down one after
the other with their blanks, are the text again: a scan loses nothing and makes nothing up. The last
token marks the end, and only blanks are before it. The span of every token says where its lexeme
stands, and spans from one token to a later one say what stands between them.

## Main definitions

* `Spaced`, `written` — tokens with the blanks before them, and the text that they make
* `Laid` — a row of tokens has the spans of its text
* `Token.StandsBehind` — the span of a token, counted from the text before it
* `SourceFile.LaidOut` — a file that is the text of a row of tokens

## Main results

* `scanFrom_sound` — what is scanned is laid out along the text
* `scan_layout` — tokens make up the text that was scanned, and stand where their spans say
* `SourceFile.LaidOut.shows_token`, `shows_merge` — what spans show
-/

namespace Scriptlet

/-! ### Rows of tokens with blanks -/

/-- Nothing but characters that separate tokens. -/
def Blank (cs : List Char) : Prop := ∀ c ∈ cs, isBlank c

/-- A token with the blanks before it. -/
structure Spaced where
  blanks : List Char
  token : Token

/-- The text of a token with the blanks before it. -/
def Spaced.text (s : Spaced) : List Char := s.blanks ++ s.token.lexeme.toList

/-- The text that tokens make up. -/
def written (row : List Spaced) : List Char := row.flatMap Spaced.text

theorem written_cons (s : Spaced) (row : List Spaced) :
    written (s :: row) = s.text ++ written row := rfl

theorem written_append (row row' : List Spaced) :
    written (row ++ row') = written row ++ written row' := List.flatMap_append

/-- The lexeme of a token is one of its kind, and only blanks are before it. -/
def Spaced.Proper (s : Spaced) : Prop :=
  Blank s.blanks ∧ IsLexeme s.token.kind s.token.lexeme.toList

/-- Tokens, up to the mark of the end, that stand where a reader of their text finds them. -/
inductive Laid : Place → List Spaced → Prop
  | stop {p blanks} (hb : Blank blanks) :
      Laid p [⟨blanks, .endOfFile (.point (p.advanceAll blanks).position)⟩]
  | token {p blanks kind lexeme row} (hb : Blank blanks) (hl : IsLexeme kind lexeme)
      (hr : Laid (p.advanceAll (blanks ++ lexeme)) row) :
      Laid p (⟨blanks, .ofLexeme (p.advanceAll blanks) kind lexeme⟩ :: row)

/-! ### Scanning -/

theorem Laid.cons_blank {p : Place} {c : Char} {row : List Spaced} (hc : isBlank c)
    (h : Laid (p.advance c) row) :
    ∃ row', Laid p row' ∧ row'.map Spaced.token = row.map Spaced.token ∧
      written row' = c :: written row := by
  cases h with
  | @stop _ blanks hb =>
    exact ⟨_, @Laid.stop _ (c :: blanks) (List.forall_mem_cons.2 ⟨hc, hb⟩), rfl, rfl⟩
  | @token _ blanks kind lexeme row hb hl hr =>
    exact ⟨_, @Laid.token _ (c :: blanks) _ _ _ (List.forall_mem_cons.2 ⟨hc, hb⟩) hl hr, rfl, rfl⟩

/-- **What is scanned is laid out along the text.** -/
theorem scanFrom_sound {p : Place} {text : List Char} {ts : List Token}
    (h : scanFrom p text = .ok ts) :
    ∃ row, Laid p row ∧ row.map Spaced.token = ts ∧ written row = text := by
  fun_induction scanFrom p text generalizing ts with
  | case1 p =>
    cases h
    exact ⟨_, @Laid.stop _ [] (List.forall_mem_nil _), rfl, rfl⟩
  | case2 p c cs hc ih =>
    obtain ⟨row, hrow, rfl, rfl⟩ := ih h
    exact hrow.cons_blank hc
  | case3 | case4 => cases h
  | case5 p c cs _ kind length hread lexeme tokens htokens =>
    rename_i ih
    cases h
    obtain ⟨row, hrow, rfl, hwritten⟩ := ih htokens
    have hlexeme := (readLexeme_sound hread).2
    refine ⟨_, @Laid.token _ [] _ _ _ (List.forall_mem_nil _) hlexeme hrow, rfl, ?_⟩
    rw [written_cons, hwritten]
    simp [Spaced.text, Token.ofLexeme]

/-! ### Parts of a row -/

namespace Laid

variable {p : Place} {s : Spaced} {row pre post : List Spaced}

/-- A row is laid out from any of its tokens on, behind the text of those before it. -/
theorem of_append (h : Laid p (pre ++ s :: post)) :
    (∀ e ∈ pre, e.Proper) ∧ Laid (p.advanceAll (written pre)) (s :: post) := by
  induction pre generalizing p with
  | nil => exact ⟨List.forall_mem_nil _, h⟩
  | cons e pre ih =>
    rw [List.cons_append] at h
    generalize hrest : pre ++ s :: post = rest at h
    cases h with
    | stop hb => simp at hrest
    | @token _ blanks kind lexeme _ hb hl hr =>
      have hlexeme : (String.ofList lexeme).toList = lexeme := String.toList_ofList
      obtain ⟨hpre, hpost⟩ := ih (hrest ▸ hr)
      refine ⟨List.forall_mem_cons.2 ⟨⟨hb, ?_⟩, hpre⟩, ?_⟩
      · rw [Token.ofLexeme, hlexeme]
        exact hl
      · rw [written_cons, Spaced.text, Token.ofLexeme, hlexeme, Place.advanceAll_append]
        exact hpost

theorem blank_of_cons (h : Laid p (s :: post)) : Blank s.blanks := by
  cases h with
  | stop hb => exact hb
  | token hb _ _ => exact hb

/-- The span of a token says where its lexeme stands. -/
theorem span_eq (h : Laid p (s :: post)) :
    s.token.span = (p.advanceAll s.blanks).span (byteCount s.token.lexeme.toList) := by
  cases h with
  | stop hb => rfl
  | token hb hl _ => rw [Token.ofLexeme, String.toList_ofList]

/-- The last token, and only that one, marks the end. -/
theorem exists_concat (h : Laid p row) :
    ∃ init blanks span, row = init ++ [⟨blanks, .endOfFile span⟩] ∧ ∀ e ∈ init, e.Proper := by
  have hne : row ≠ [] := by cases h <;> exact List.cons_ne_nil _ _
  obtain ⟨init, last, rfl⟩ := (List.eq_nil_or_concat' row).resolve_left hne
  obtain ⟨hinit, hlast⟩ := h.of_append
  generalize hp : p.advanceAll (written init) = q at hlast
  cases hlast with
  | stop hb => exact ⟨init, _, _, rfl, hinit⟩
  | token hb hl hr => cases hr

end Laid

/-! ### Where tokens stand -/

/-- The span of a token says where it stands if this is the text before it: which line it is on, how
many bytes of that line are before it, and how many bytes it takes, but at least one. -/
def Token.StandsBehind (t : Token) (before : List Char) : Prop :=
  t.span.start.line.toNat = 1 + before.count '\n' ∧
    t.span.start.column.toNat = 1 + byteCount (lastLine before) ∧
    t.span.stop.line = t.span.start.line ∧
    t.span.stop.column.toNat =
      t.span.start.column.toNat + max t.lexeme.utf8ByteSize 1 - 1

theorem Laid.standsBehind {pre post : List Spaced} {s : Spaced}
    (h : Laid .first (pre ++ s :: post))
    (hsize : byteCount (written (pre ++ s :: post)) < 2 ^ 32 - 1) :
    s.token.StandsBehind (written pre ++ s.blanks) := by
  have hspan := h.of_append.2.span_eq
  rw [← Place.advanceAll_append, byteCount_toList] at hspan
  rw [written_append, written_cons, Spaced.text] at hsize
  simp only [byteCount_append, byteCount_toList] at hsize
  have hbefore :
      byteCount (written pre ++ s.blanks) + s.token.lexeme.utf8ByteSize < 2 ^ 32 - 1 := by
    rw [byteCount_append]
    omega
  obtain ⟨hline, hstart, hstop⟩ := Place.span_advanceAll_first hbefore
  rw [← hspan] at hline hstart hstop
  refine ⟨by omega, by omega, ?_, by omega⟩
  rw [hspan]
  rfl

/-- **Tokens make up the text that was scanned.** With blanks before each of them, the tokens of a
text are the text again. The last one, and only that one, marks the end, where nothing is left. Each
token stands where its span says. -/
theorem scan_layout {text : String} {ts : List Token} (hsize : text.utf8ByteSize < 2 ^ 32 - 1)
    (h : scan text = .ok ts) :
    ∃ row : List Spaced, row.map Spaced.token = ts ∧ written row = text.toList ∧
      (∀ s ∈ row, ∀ c ∈ s.blanks, c = ' ' ∨ c = '\t' ∨ c = '\r') ∧
      (∃ (init : List Token) (last : Token), ts = init ++ [last] ∧ last.kind = .endOfFile ∧
        last.lexeme = "" ∧ ∀ t ∈ init, t.kind ≠ .endOfFile ∧ t.lexeme ≠ "") ∧
      ∀ (pre : List Spaced) (s : Spaced) (post : List Spaced), row = pre ++ s :: post →
        s.token.StandsBehind (written pre ++ s.blanks) := by
  obtain ⟨row, hrow, hts, hwritten⟩ := scanFrom_sound h
  refine ⟨row, hts, hwritten, ?_, ?_, ?_⟩
  · intro s hs c hc
    obtain ⟨pre, post, rfl⟩ := List.append_of_mem hs
    have hblank := hrow.of_append.2.blank_of_cons c hc
    simpa [isBlank, or_assoc] using hblank
  · obtain ⟨init, blanks, span, rfl, hinit⟩ := hrow.exists_concat
    rw [List.map_append] at hts
    refine ⟨_, _, hts.symm, rfl, rfl, List.forall_mem_map.2 fun e he => ?_⟩
    have hlexeme := (hinit e he).2
    exact ⟨hlexeme.ne_endOfFile, fun hempty => hlexeme.ne_nil (by rw [hempty]; rfl)⟩
  · rintro pre s post rfl
    refine hrow.standsBehind ?_
    rw [hwritten, byteCount_toList]
    exact hsize

/-- Bytes are counted, not characters, and a carriage return is a blank before its line end. -/
theorem scan_layout_small :
    ∃ ts, scan "x \"é\"\r\n" = .ok ts ∧ ts.map Token.lexeme = ["x", "\"é\"", "\n", ""] ∧
      ts.map (fun t => t.span.text) = ["1:1", "1:3", "1:8", "2:1"] ∧
      ∃ row : List Spaced, row.map Spaced.token = ts ∧ written row = "x \"é\"\r\n".toList ∧
        ∀ (pre : List Spaced) (s : Spaced) (post : List Spaced), row = pre ++ s :: post →
          s.token.StandsBehind (written pre ++ s.blanks) := by
  have hscan : scan "x \"é\"\r\n" = .ok
      [⟨.identifier "x", "x", ⟨⟨1, 1⟩, ⟨1, 1⟩⟩⟩, ⟨.string "é", "\"é\"", ⟨⟨1, 3⟩, ⟨1, 6⟩⟩⟩,
        ⟨.newline, "\n", ⟨⟨1, 8⟩, ⟨1, 8⟩⟩⟩, .endOfFile (.point ⟨2, 1⟩)] := by cbv
  obtain ⟨row, hts, hwritten, -, -, hstands⟩ := scan_layout (by decide) hscan
  exact ⟨_, hscan, rfl, by decide, row, hts, hwritten, hstands⟩

/-! ### What spans show -/

theorem Blank.no_newline {cs : List Char} (h : Blank cs) : '\n' ∉ cs :=
  fun hn => absurd (h _ hn) (by decide)

theorem Spaced.Proper.no_newline {s : Spaced} (h : s.Proper) (hk : s.token.kind ≠ .newline) :
    '\n' ∉ s.text := by
  have hlexeme := h.2.no_newline hk
  have hblanks := h.1.no_newline
  simp [text, hlexeme, hblanks]

theorem no_newline_written {row : List Spaced} (h : ∀ s ∈ row, s.Proper)
    (hk : ∀ s ∈ row, s.token.kind ≠ .newline) : '\n' ∉ written row := by
  intro hn
  obtain ⟨s, hs, hn⟩ := List.mem_flatMap.1 hn
  exact (h s hs).no_newline (hk s hs) hn

/-- Identifiers and symbols are not cut off with the end of a line. -/
theorem Spaced.Proper.unbroken_of_identifier {s : Spaced} (h : s.Proper) {name : String}
    (hk : s.token.kind = .identifier name) : Unbroken s.token.lexeme.toList := by
  refine ⟨h.2.no_newline (by simp [hk]), h.2.ne_nil, fun hlast => ?_⟩
  have hword := (h.2.eq_of_identifier hk).2 '\r' (List.mem_of_getLast? hlast)
  exact absurd hword (by decide)

theorem Symbol.unbroken (s : Symbol) : Unbroken s.text.toList := by
  cases s <;> exact ⟨by decide, by decide, by decide⟩

/-- A file that is the text of a row of tokens, and not too long for their spans. -/
structure SourceFile.LaidOut (f : SourceFile) (row : List Spaced) : Prop where
  laid : Laid .first row
  text_eq : f.text.toList = written row
  size_lt : f.text.utf8ByteSize < 2 ^ 32 - 1

namespace SourceFile.LaidOut

variable {f : SourceFile} {s t : Spaced} {row pre mid post : List Spaced}

theorem proper (h : f.LaidOut row) (hs : s ∈ row) (hk : s.token.kind ≠ .endOfFile) : s.Proper := by
  obtain ⟨init, blanks, span, rfl, hinit⟩ := h.laid.exists_concat
  rcases List.mem_append.1 hs with hs | hs
  · exact hinit s hs
  · exact absurd (congrArg (·.token.kind) (List.mem_singleton.1 hs)) hk

/-- **The span of a token shows its lexeme.** -/
theorem shows_token (h : f.LaidOut row) (hs : s ∈ row) (hu : Unbroken s.token.lexeme.toList) :
    f.Shows s.token.span s.token.lexeme.toList := by
  obtain ⟨pre, post, rfl⟩ := List.append_of_mem hs
  have hparts : f.text.toList =
      written pre ++ s.blanks ++ (s.token.lexeme.toList ++ written post) := by
    rw [h.text_eq, written_append, written_cons, Spaced.text]
    simp only [List.append_assoc]
  rw [h.laid.of_append.2.span_eq, ← Place.advanceAll_append]
  exact SourceFile.shows_span hparts hu h.size_lt

/-- **The span from one token to a later one shows all that stands between them**, and their
lexemes, if no line end is among the tokens. -/
theorem shows_merge (h : f.LaidOut (pre ++ s :: (mid ++ t :: post)))
    (hline : ∀ e ∈ s :: mid, e.token.kind ≠ .newline) (hu : Unbroken t.token.lexeme.toList) :
    f.Shows (s.token.span.merge t.token.span)
      (s.token.lexeme.toList ++ (written mid ++ t.blanks ++ t.token.lexeme.toList)) := by
  have hparts : f.text.toList = written pre ++ s.blanks ++ (s.token.lexeme.toList ++
      (written mid ++ t.blanks ++ t.token.lexeme.toList) ++ written post) := by
    rw [h.text_eq]
    simp only [written_append, written_cons, Spaced.text, List.append_assoc]
  have hlater : Laid .first ((pre ++ s :: mid) ++ t :: post) := by simpa using h.laid
  obtain ⟨hproper, hlast⟩ := hlater.of_append
  obtain ⟨-, hproper⟩ := List.forall_mem_append.1 hproper
  obtain ⟨hs, hmid⟩ := List.forall_mem_cons.1 hproper
  obtain ⟨hsline, hmidline⟩ := List.forall_mem_cons.1 hline
  -- no newline from the first lexeme on, so the last token stands on the line of the first
  have hbetween : '\n' ∉ s.token.lexeme.toList ++ (written mid ++ t.blanks) := by
    have hfirst := hs.2.no_newline hsline
    have hwritten := no_newline_written hmid hmidline
    have hblanks := hlast.blank_of_cons.no_newline
    simp [hfirst, hwritten, hblanks]
  have hstop : t.token.span = ((Place.first.advanceAll (written pre ++ s.blanks)).advanceAll
      (s.token.lexeme.toList ++ (written mid ++ t.blanks))).span
        (byteCount t.token.lexeme.toList) := by
    rw [hlast.span_eq, ← Place.advanceAll_append, ← Place.advanceAll_append, written_append,
      written_cons, Spaced.text]
    simp only [List.append_assoc]
  have hcolumn : (Place.first.advanceAll (written pre ++ s.blanks)).column + byteCount
      (s.token.lexeme.toList ++ (written mid ++ t.blanks ++ t.token.lexeme.toList)) < 2 ^ 32 := by
    have hle := count_add_byteCount_lastLine_le (written pre ++ s.blanks)
    have hsize := h.size_lt
    rw [← byteCount_toList, hparts, byteCount_append, byteCount_append _ (written post)] at hsize
    rw [Place.column_advanceAll_first]
    omega
  have hstretch := hu.append hbetween
  rw [List.append_assoc] at hstretch
  rw [h.laid.of_append.2.span_eq, ← Place.advanceAll_append, hstop,
    Place.merge_span hs.2.ne_nil hu.2.1 hbetween hcolumn]
  exact SourceFile.shows_span hparts hstretch h.size_lt

end SourceFile.LaidOut

end Scriptlet
