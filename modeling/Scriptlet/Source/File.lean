/-!
# Source files

A source file is a name and a text. Its lines are found by a table of the byte offsets at which they
start: one is the start of the text, and one stands behind each newline. So a text with `n` newlines
has `n + 1` lines, the last of which may be empty. A line goes up to the newline before the next
line, and the last one to the end of the text. It is quoted without the carriage returns at its end.

Offsets count bytes, but a text is made of characters. What lies between two offsets can only be cut
out if it is made of whole characters, and a look-up has to stop if it is not.
-/

namespace Scriptlet

/-- A named text, kept so that diagnostics can quote the line they blame. -/
structure SourceFile where
  name : String
  text : String
deriving DecidableEq, Inhabited

/-- Why a line cannot be looked up. -/
inductive LookUpFault
  /-- One is taken from zero. -/
  | underflow
  /-- What lies between two byte offsets is no stretch of whole characters. -/
  | slice (start stop : Nat)
deriving DecidableEq

/-- The byte offsets of the newlines in a text that starts at an offset. -/
def newlineOffsets (offset : Nat) : List Char → List Nat
  | [] => []
  | c :: cs =>
    if c = '\n' then offset :: newlineOffsets (offset + c.utf8Size) cs
    else newlineOffsets (offset + c.utf8Size) cs

/-- A text cut at a byte offset, if that is not past its end or inside a character. -/
def splitBytes? : List Char → Nat → Option (List Char × List Char)
  | cs, 0 => some ([], cs)
  | [], _ + 1 => none
  | c :: cs, n + 1 =>
    if c.utf8Size ≤ n + 1 then
      (splitBytes? cs (n + 1 - c.utf8Size)).map fun (before, after) => (c :: before, after)
    else none

/-- What lies between two byte offsets of a text. -/
def sliceBytes? (cs : List Char) (start stop : Nat) : Option (List Char) :=
  if start ≤ stop then do
    let (_, rest) ← splitBytes? cs start
    let (stretch, _) ← splitBytes? rest (stop - start)
    return stretch
  else none

/-- A line without the carriage returns at its end. -/
def trimReturns (l : List Char) : List Char :=
  (l.reverse.dropWhile (· = '\r')).reverse

namespace SourceFile

/-- The byte offset at which each line starts. -/
def lineStarts (f : SourceFile) : List Nat :=
  0 :: (newlineOffsets 0 f.text.toList).map (· + 1)

/-- One more than the number of newlines. -/
def lineCount (f : SourceFile) : Nat := f.lineStarts.length

/-- The byte offset at which a line stops, by its index in the table. -/
def lineStop (f : SourceFile) (i : Nat) : Except LookUpFault Nat :=
  match f.lineStarts[i + 1]? with
  | some (next + 1) => .ok next
  | some 0 => .error .underflow
  | none => .ok f.text.utf8ByteSize

/-- Looks up the line of a number counted from one, if there is such a line. -/
def lookUp (f : SourceFile) (n : UInt32) : Except LookUpFault (Option String) :=
  match n.toNat with
  | 0 => .ok none
  | i + 1 =>
    match f.lineStarts[i]? with
    | none => .ok none
    | some start => do
      let stop ← f.lineStop i
      match sliceBytes? f.text.toList start stop with
      | some line => return some (String.ofList (trimReturns line))
      | none => throw (.slice start stop)

/-- The line of a number counted from one, without its line end. Looking it up never goes wrong. -/
def line? (f : SourceFile) (n : UInt32) : Option String :=
  match f.lookUp n with
  | .ok line => line
  | .error _ => none

end SourceFile

end Scriptlet
