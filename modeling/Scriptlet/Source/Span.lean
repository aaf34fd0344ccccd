/-!
# Positions and spans

A place in a source text is a line and a column, both counted from one, where columns count bytes.
A `Span` runs from its first place to its last, both included.

Positions are ordered as one reads: by line, then by column. `Span.merge` takes the smaller start
and the larger stop, so it is the least span that covers both.
-/

namespace Scriptlet

/-- A line and a column, both counted from one; columns count bytes. -/
structure Position where
  line : UInt32
  column : UInt32
deriving DecidableEq, Inhabited

namespace Position

/-- Reading order: an earlier line, or the same line and no later column. -/
protected def le (p q : Position) : Prop :=
  p.line < q.line ∨ p.line = q.line ∧ p.column ≤ q.column

instance : LE Position := ⟨Position.le⟩

instance (p q : Position) : Decidable (p ≤ q) :=
  inferInstanceAs (Decidable (_ ∨ _))

instance : Min Position := ⟨fun p q => if p ≤ q then p else q⟩

instance : Max Position := ⟨fun p q => if p ≤ q then q else p⟩

/-- The start of every text. -/
def first : Position := ⟨1, 1⟩

/-- A place as diagnostics write it: `line:column`. -/
def text (p : Position) : String := toString p.line.toNat ++ ":" ++ toString p.column.toNat

end Position

/-- A stretch of source text, from its first place to its last. -/
structure Span where
  start : Position
  stop : Position
deriving DecidableEq, Inhabited

namespace Span

/-- The span of a single place. -/
def point (p : Position) : Span := ⟨p, p⟩

/-- The least span that covers both. -/
def merge (a b : Span) : Span := ⟨min a.start b.start, max a.stop b.stop⟩

/-- A span is named by where it starts. -/
def text (s : Span) : String := s.start.text

end Span

end Scriptlet
