import Scriptlet.Proofs.Token.Layout

/-!
# The order of tokens

The tokens of a file stand one after the other, each of them on one line, and nothing but a line end
leads from one line to the next. So a stretch of tokens is told by its first and its last token, and
merging spans of tokens, which only compares positions, gives the span of all that stands between
them.

## Main definitions

* `Token.Before` — one token ends where the other has not started yet
* `OnOneLine` — tokens that stand on a single line
* `Ordered` — tokens that stand as those of a file do
* `Span.Covers` — a span goes from the start of the first token to the end of the last one

## Main results

* `SourceFile.LaidOut.ordered` — the tokens of a file are ordered
* `Span.Covers.merge` — merging the spans of two stretches covers all from the first to the second
-/

namespace Scriptlet

/-- A token ends on an earlier line than another one starts, or on the same line to the left. -/
def Token.Before (t u : Token) : Prop :=
  t.span.stop.line < u.span.start.line ∨
    t.span.stop.line = u.span.start.line ∧ t.span.stop.column < u.span.start.column

/-- All tokens stand on a single line. -/
def OnOneLine (ts : List Token) : Prop :=
  ∃ line, ∀ t ∈ ts, t.span.start.line = line ∧ t.span.stop.line = line

/-- Tokens stand one after the other, each on one line, and only line ends lead to the next line. -/
structure Ordered (ts : List Token) : Prop where
  span : ∀ t ∈ ts, t.span.start.line = t.span.stop.line ∧
    t.span.start.column ≤ t.span.stop.column
  before : ts.Pairwise Token.Before
  line : ∀ us, us <:+: ts → (∀ t ∈ us, t.kind ≠ .newline) → OnOneLine us

theorem Ordered.part {ts us : List Token} (h : Ordered ts) (hus : us <:+: ts) : Ordered us where
  span t ht := h.span t (hus.subset ht)
  before := h.before.sublist hus.sublist
  line vs hvs := h.line vs (hvs.trans hus)

/-! ### Tokens and the text before them -/

theorem byteCount_lastLine_append (before : List Char) {cs : List Char} (h : '\n' ∉ cs) :
    byteCount (lastLine (before ++ cs)) = byteCount (lastLine before) + byteCount cs := by
  have hcolumn := Place.column_advanceAll_first (before ++ cs)
  rw [Place.advanceAll_append, Place.advanceAll_of_no_newline h] at hcolumn
  simp only [Place.column_advanceAll_first] at hcolumn
  omega

namespace Token.StandsBehind

variable {s t : Token} {before cs : List Char}

theorem span (h : s.StandsBehind before) :
    s.span.start.line = s.span.stop.line ∧ s.span.start.column ≤ s.span.stop.column := by
  obtain ⟨-, -, hline, hstop⟩ := h
  refine ⟨hline.symm, ?_⟩
  rw [UInt32.le_iff_toNat_le]
  omega

/-- A token stands before those behind its lexeme. -/
theorem before_of_append (hs : s.StandsBehind before) (hne : s.lexeme.toList ≠ [])
    (ht : t.StandsBehind (before ++ (s.lexeme.toList ++ cs))) : s.Before t := by
  obtain ⟨hline, hstart, hlines, hstop⟩ := hs
  obtain ⟨hline', hstart', -, -⟩ := ht
  have hpos := byteCount_pos hne
  rw [byteCount_toList] at hpos
  rw [Before, hlines, UInt32.lt_iff_toNat_lt, UInt32.lt_iff_toNat_lt, ← UInt32.toNat_inj]
  rw [List.count_append] at hline'
  by_cases hn : '\n' ∈ s.lexeme.toList ++ cs
  · have := List.count_pos_iff.2 hn
    omega
  · have := List.count_eq_zero.2 hn
    rw [byteCount_lastLine_append _ hn, byteCount_append, byteCount_toList] at hstart'
    omega

theorem line_eq_of_append (hs : s.StandsBehind before) (ht : t.StandsBehind (before ++ cs))
    (hn : '\n' ∉ cs) : s.span.start.line = t.span.start.line := by
  have hline := hs.1
  have hline' := ht.1
  rw [List.count_append, List.count_eq_zero.2 hn] at hline'
  rw [← UInt32.toNat_inj]
  omega

end Token.StandsBehind

/-! ### The tokens of a file -/

/-- A relation holds between what comes first and what comes later, if it does wherever the two
are. -/
theorem pairwise_of_split {α : Type} {R : α → α → Prop} {l : List α}
    (h : ∀ pre a mid b post, l = pre ++ a :: (mid ++ b :: post) → R a b) : l.Pairwise R := by
  induction l with
  | nil => exact .nil
  | cons a l ih =>
    refine .cons (fun b hb => ?_) (ih fun pre x mid y post hl => ?_)
    · obtain ⟨mid, post, rfl⟩ := List.append_of_mem hb
      exact h [] a mid b post rfl
    · exact h (a :: pre) x mid y post (by rw [hl, List.cons_append])

namespace SourceFile.LaidOut

variable {f : SourceFile} {s t : Spaced} {row pre mid post : List Spaced}

theorem standsBehind (h : f.LaidOut (pre ++ s :: post)) :
    s.token.StandsBehind (written pre ++ s.blanks) := by
  refine h.laid.standsBehind ?_
  rw [← h.text_eq, byteCount_toList]
  exact h.size_lt

/-- Tokens that follow each other are proper but perhaps for the last one, which stands behind the
text up to it. -/
theorem of_later (h : f.LaidOut (pre ++ s :: (mid ++ t :: post))) :
    (∀ e ∈ s :: mid, e.Proper) ∧ Blank t.blanks ∧ t.token.StandsBehind
      (written pre ++ s.blanks ++ (s.token.lexeme.toList ++ (written mid ++ t.blanks))) := by
  have hsplit : pre ++ s :: (mid ++ t :: post) = (pre ++ s :: mid) ++ t :: post := by simp
  rw [hsplit] at h
  obtain ⟨hproper, hlast⟩ := h.laid.of_append
  refine ⟨(List.forall_mem_append.1 hproper).2, hlast.blank_of_cons, ?_⟩
  simpa [written_append, written_cons, Spaced.text] using h.standsBehind

theorem before_later (h : f.LaidOut (pre ++ s :: (mid ++ t :: post))) :
    s.token.Before t.token := by
  obtain ⟨hproper, -, hlater⟩ := h.of_later
  exact h.standsBehind.before_of_append (hproper s List.mem_cons_self).2.ne_nil hlater

theorem line_eq_later (h : f.LaidOut (pre ++ s :: (mid ++ t :: post)))
    (hline : ∀ e ∈ s :: mid, e.token.kind ≠ .newline) :
    s.token.span.start.line = t.token.span.start.line := by
  obtain ⟨hproper, hblank, hlater⟩ := h.of_later
  obtain ⟨hs, hmid⟩ := List.forall_mem_cons.1 hproper
  obtain ⟨hsline, hmidline⟩ := List.forall_mem_cons.1 hline
  refine h.standsBehind.line_eq_of_append hlater ?_
  have hfirst := hs.2.no_newline hsline
  have hwritten := no_newline_written hmid hmidline
  have hblanks := hblank.no_newline
  simp [hfirst, hwritten, hblanks]

/-- A stretch of tokens without line ends stands on one line. -/
theorem onOneLine (h : f.LaidOut (pre ++ (mid ++ post)))
    (hline : ∀ e ∈ mid, e.token.kind ≠ .newline) : OnOneLine (mid.map Spaced.token) := by
  cases mid with
  | nil => exact ⟨0, List.forall_mem_nil _⟩
  | cons s rest =>
    refine ⟨s.token.span.start.line, List.forall_mem_map.2 (List.forall_mem_cons.2 ⟨?_, ?_⟩)⟩
    · exact ⟨rfl, h.standsBehind.span.1.symm⟩
    · intro t ht
      obtain ⟨between, behind, rfl⟩ := List.append_of_mem ht
      have hlater : pre ++ (s :: (between ++ t :: behind) ++ post) =
          pre ++ s :: (between ++ t :: (behind ++ post)) := by simp
      rw [hlater] at h
      have hbetween : ∀ e ∈ s :: between, e.token.kind ≠ .newline := fun e he =>
        hline e (List.mem_append_left (t :: behind) he)
      have heq := h.line_eq_later hbetween
      exact ⟨heq.symm, h.of_later.2.2.span.1.symm.trans heq.symm⟩

/-- **The tokens of a file are ordered.** -/
theorem ordered (h : f.LaidOut row) : Ordered (row.map Spaced.token) where
  span := by
    refine List.forall_mem_map.2 fun s hs => ?_
    obtain ⟨pre, post, rfl⟩ := List.append_of_mem hs
    exact h.standsBehind.span
  before := by
    refine List.pairwise_map.2 (pairwise_of_split ?_)
    rintro pre s mid t post rfl
    exact h.before_later
  line us hus hline := by
    obtain ⟨mid, ⟨pre, post, rfl⟩, rfl⟩ := List.infix_map_iff.1 hus
    rw [List.append_assoc] at h
    exact h.onOneLine fun e he => hline e.token (List.mem_map_of_mem he)

end SourceFile.LaidOut

/-! ### Spans of stretches -/

/-- A span starts where the first of some tokens starts, and ends where the last one ends. -/
def Span.Covers (s : Span) (ts : List Token) : Prop :=
  (ts.head?.map fun t => t.span.start) = some s.start ∧
    (ts.getLast?.map fun t => t.span.stop) = some s.stop

theorem Span.covers_singleton (t : Token) : t.span.Covers [t] := ⟨rfl, rfl⟩

/-- What comes before ends before, and starts before. -/
theorem Token.Before.span_le {t u : Token} (h : t.Before u)
    (ht : t.span.start.line = t.span.stop.line ∧ t.span.start.column ≤ t.span.stop.column)
    (hu : u.span.start.line = u.span.stop.line ∧ u.span.start.column ≤ u.span.stop.column) :
    t.span.start ≤ u.span.start ∧ t.span.stop ≤ u.span.stop := by
  obtain ⟨htline, htcolumn⟩ := ht
  obtain ⟨huline, hucolumn⟩ := hu
  rcases h with hline | ⟨hline, hcolumn⟩
  · exact ⟨.inl (htline ▸ hline), .inl (huline ▸ hline)⟩
  · have hle := UInt32.le_of_lt hcolumn
    exact ⟨.inr ⟨htline.trans hline, UInt32.le_trans htcolumn hle⟩,
      .inr ⟨hline.trans huline, UInt32.le_trans hle hucolumn⟩⟩

/-- **Merging the spans of two stretches covers all from the first to the second.** -/
theorem Span.Covers.merge {a b : Span} {us vs : List Token} (ha : a.Covers us) (hb : b.Covers vs)
    (ms : List Token) (ho : Ordered (us ++ (ms ++ vs))) :
    (a.merge b).Covers (us ++ (ms ++ vs)) := by
  obtain ⟨hstart, hstop⟩ := ha
  obtain ⟨hstart', hstop'⟩ := hb
  rw [Option.map_eq_some_iff] at hstart hstop hstart' hstop'
  obtain ⟨t, ht, hstart⟩ := hstart
  obtain ⟨u, hu, hstop⟩ := hstop
  obtain ⟨t', ht', hstart'⟩ := hstart'
  obtain ⟨u', hu', hstop'⟩ := hstop'
  have hle : ∀ x ∈ us, ∀ y ∈ vs, x.span.start ≤ y.span.start ∧ x.span.stop ≤ y.span.stop := by
    intro x hx y hy
    have hbefore := (List.pairwise_append.1 ho.before).2.2 x hx y (List.mem_append_right _ hy)
    exact hbefore.span_le (ho.span x (by simp [hx])) (ho.span y (by simp [hy]))
  have hfirst := (hle t (List.mem_of_head? ht) t' (List.mem_of_head? ht')).1
  have hlast := (hle u (List.mem_of_getLast? hu) u' (List.mem_of_getLast? hu')).2
  rw [hstart, hstart'] at hfirst
  rw [hstop, hstop'] at hlast
  rw [Span.merge_of_le hfirst hlast]
  constructor
  · simp [ht, hstart]
  · simp [List.getLast?_append, hu', hstop']

end Scriptlet
