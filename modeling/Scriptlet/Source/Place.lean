import Scriptlet.Source.Span

/-!
# Walking through a text

A `Place` is where a reader stands in a text. It moves on by whole characters: a newline starts
the next line, and any other character takes as many columns as it has bytes.
-/

namespace Scriptlet

/-- Where a reader stands: line and column, both counted from one. -/
structure Place where
  line : Nat
  column : Nat
deriving DecidableEq, Inhabited

namespace Place

/-- The start of a text. -/
def first : Place := ⟨1, 1⟩

/-- The place after one more character. -/
def advance (p : Place) (c : Char) : Place :=
  if c = '\n' then ⟨p.line + 1, 1⟩ else ⟨p.line, p.column + c.utf8Size⟩

/-- The place after a stretch of text. -/
def advanceAll (p : Place) (cs : List Char) : Place := cs.foldl advance p

@[simp] theorem advanceAll_nil (p : Place) : p.advanceAll [] = p := rfl

@[simp] theorem advanceAll_cons (p : Place) (c : Char) (cs : List Char) :
    p.advanceAll (c :: cs) = (p.advance c).advanceAll cs := rfl

theorem advanceAll_append (p : Place) (cs ds : List Char) :
    p.advanceAll (cs ++ ds) = (p.advanceAll cs).advanceAll ds := by simp [advanceAll]

def position (p : Place) : Position := ⟨.ofNat p.line, .ofNat p.column⟩

/-- The span of a stretch of `bytes` bytes that starts here, on one line. What is empty has the span
of a single place. -/
def span (p : Place) (bytes : Nat) : Span :=
  ⟨p.position, ⟨.ofNat p.line, .ofNat (p.column + (max bytes 1 - 1))⟩⟩

end Place

/-- The number of bytes that characters take. -/
def byteCount (cs : List Char) : Nat := cs.foldr (fun c n => c.utf8Size + n) 0

@[simp] theorem byteCount_nil : byteCount [] = 0 := rfl

@[simp] theorem byteCount_cons (c : Char) (cs : List Char) :
    byteCount (c :: cs) = c.utf8Size + byteCount cs := rfl

theorem byteCount_append (cs ds : List Char) :
    byteCount (cs ++ ds) = byteCount cs + byteCount ds := by
  induction cs with
  | nil => simp
  | cons c cs ih => simp [ih, Nat.add_assoc]

/-- Text without newlines moves a reader on by its bytes. -/
theorem Place.advanceAll_of_no_newline {cs : List Char} (h : '\n' ∉ cs) (p : Place) :
    p.advanceAll cs = ⟨p.line, p.column + byteCount cs⟩ := by
  induction cs generalizing p with
  | nil => rfl
  | cons c cs ih =>
    obtain ⟨hc, hcs⟩ := not_or.1 (mt List.mem_cons.2 h)
    simp [ih hcs, advance, Ne.symm hc, Nat.add_assoc]

end Scriptlet
