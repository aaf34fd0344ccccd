import Scriptlet.Proofs.Source.Bytes
import Scriptlet.Token.Scan

/-!
# Scanning with a cursor

`scanFrom` takes lexemes off the front of a text, and the place behind a lexeme is computed from its
characters. Here the same text is scanned by a `Scanner`, which leaves the text as it is and moves a
cursor along it: the offset of the next byte, with the line and the column of that byte. Single
bytes decide which rule applies, and the lexeme of a token is cut out of the text once its end is
reached.

Each rule moves the three numbers of the cursor itself, and nothing keeps them in step with the text
or with each other. What is to be cut out may not be made of whole characters, and digits may be no
number. Then a scan has no result, and neither has one that needs more rounds than it was given.

## Main definitions

* `ScanCursor` — where a scanner stands
* `Scanner.token` — one token, by the rule that applies
* `Scanner.tokens` — the tokens of the whole text, scanned with a cursor
-/

namespace Scriptlet

/-! ### Cursors -/

/-- The offset of the next byte, and its line and column. -/
structure ScanCursor where
  offset : Nat
  line : UInt32
  column : UInt32
deriving DecidableEq

namespace ScanCursor

/-- At the first byte. -/
def start : ScanCursor := ⟨0, 1, 1⟩

def position (c : ScanCursor) : Position := ⟨c.line, c.column⟩

/-- Past bytes of the same line. -/
def skip (c : ScanCursor) (bytes : Nat) : ScanCursor :=
  { c with offset := c.offset + bytes, column := c.column + .ofNat bytes }

/-- Past a character, which may end the line. -/
def pass (c : ScanCursor) (char : Char) : ScanCursor :=
  if char = '\n' then ⟨c.offset + char.utf8Size, c.line + 1, 1⟩ else c.skip char.utf8Size

end ScanCursor

/-! ### Classes of bytes -/

def isBlankByte (b : UInt8) : Bool := b = ' '.toUInt8 || b = '\t'.toUInt8 || b = '\r'.toUInt8

def isDigitByte (b : UInt8) : Bool := '0'.toUInt8 ≤ b && b ≤ '9'.toUInt8

def isWordByte (b : UInt8) : Bool :=
  'a'.toUInt8 ≤ b && b ≤ 'z'.toUInt8 || 'A'.toUInt8 ≤ b && b ≤ 'Z'.toUInt8 || isDigitByte b ||
    b = '_'.toUInt8

/-- The tokens of one byte. -/
def Token.Kind.ofByte? (b : UInt8) : Option Token.Kind :=
  match Char.ofUInt8 b with
  | '\n' => some .newline
  | '(' => some (.symbol .lparen)
  | ')' => some (.symbol .rparen)
  | '\x7b' => some (.symbol .lbrace)
  | '\x7d' => some (.symbol .rbrace)
  | ',' => some (.symbol .comma)
  | '+' => some (.symbol .plus)
  | '-' => some (.symbol .minus)
  | '*' => some (.symbol .star)
  | '/' => some (.symbol .slash)
  | _ => none

/-- The number that digits stand for. -/
def wholeNumber? (cs : List Char) : Option Float :=
  if cs ≠ [] ∧ cs.all Char.isDigit then some (Float.ofNat (digitsValue cs)) else none

/-! ### Scanners -/

/-- What is scanned with a cursor: the text, and how many rounds a loop may take. -/
structure Scanner where
  text : List Char
  rounds : Nat

namespace Scanner

/-- A token with the cursor behind it, or what is wrong with the text. There is neither if the scan
has no result. -/
abbrev Outcome : Type := Option (Except ScanError (Token × ScanCursor))

variable (s : Scanner)

def byte? (offset : Nat) : Option UInt8 := (utf8 s.text)[offset]?

/-- The next character, if there is one. Inside a character this has no result. -/
def peek (c : ScanCursor) : Option (Option Char) := do
  let (_, rest) ← splitBytes? s.text c.offset
  return rest.head?

/-- The token between two cursors. It stands on one line, so its last column is told by its bytes;
what is empty has the column that it starts on. -/
def finish (kind : Token.Kind) (first last : ScanCursor) : Outcome := do
  let lexeme ← sliceBytes? s.text first.offset last.offset
  let bytes : UInt32 := .ofNat (last.offset - first.offset)
  let more : UInt32 := if bytes = 0 then 0 else bytes - 1
  let span : Span := ⟨first.position, ⟨first.line, first.column + more⟩⟩
  return .ok (⟨kind, String.ofList lexeme, span⟩, last)

/-- Past all bytes of a class. -/
def skipWhile (p : UInt8 → Bool) : (rounds : Nat) → ScanCursor → Option ScanCursor
  | 0, _ => none
  | rounds + 1, c =>
    if (s.byte? c.offset).any p then skipWhile p rounds (c.skip 1) else some c

/-! ### Rules -/

def number (first : ScanCursor) : Outcome := do
  let last ← s.skipWhile isDigitByte s.rounds first
  let digits ← sliceBytes? s.text first.offset last.offset
  let x ← wholeNumber? digits
  s.finish (.number x) first last

def word (first : ScanCursor) : Outcome := do
  let last ← s.skipWhile isWordByte s.rounds first
  let name ← sliceBytes? s.text first.offset last.offset
  s.finish (wordKind name) first last

/-- The rest of a string literal, with what its characters so far stand for. A backslash before the
end of the line is passed over, and the next round ends the scan. -/
def stringRest (first : ScanCursor) :
    (rounds : Nat) → (value : List Char) → ScanCursor → Outcome
  | 0, _, _ => none
  | rounds + 1, value, c => do
    match ← s.peek c with
    | none | some '\n' => return .error ⟨.unterminatedString, ⟨first.position, c.position⟩⟩
    | some '"' => s.finish (.string (String.ofList value)) first (c.skip 1)
    | some '\\' =>
      let behind := c.skip 1
      match ← s.peek behind with
      | none | some '\n' => stringRest first rounds value behind
      | some d =>
        match unescape? d with
        | some e => stringRest first rounds (value ++ [e]) (behind.pass d)
        | none =>
          return .error ⟨.invalidEscape d, ⟨⟨behind.line, c.column⟩, behind.position⟩⟩
    | some d => stringRest first rounds (value ++ [d]) (c.pass d)

def string (first : ScanCursor) : Outcome := s.stringRest first s.rounds [] (first.skip 1)

def unexpected (c : ScanCursor) : Outcome := do
  let char ← s.peek c
  return .error ⟨.unexpectedCharacter (char.getD '\x00'), .point c.position⟩

/-- Do these two characters come next? -/
def sees (c : ScanCursor) (char char' : Char) : Bool :=
  s.byte? c.offset = some char.toUInt8 && s.byte? (c.offset + 1) = some char'.toUInt8

/-- The token at the cursor, by the first rule that applies. A line end is a token of its own line,
so its span is told before the cursor is moved. -/
def token (c : ScanCursor) : Outcome :=
  let next := s.byte? c.offset
  match next.bind Token.Kind.ofByte? with
  | some .newline => some (.ok (⟨.newline, "\n", .point c.position⟩, c.pass '\n'))
  | some kind => s.finish kind c (c.skip 1)
  | none =>
    if s.sees c '!' '=' then s.finish (.symbol .bangEq) c (c.skip 2)
    else if s.sees c '=' '=' then s.finish (.symbol .eqEq) c (c.skip 2)
    else if next.any isDigitByte then s.number c
    else if next.any isWordByte then s.word c
    else if s.sees c ':' '=' then s.finish (.symbol .colonEq) c (c.skip 2)
    else if next = some '"'.toUInt8 then s.string c
    else s.unexpected c

def tokensFrom : (rounds : Nat) → (earlier : List Token) → ScanCursor →
    Option (Except ScanError (List Token))
  | 0, _, _ => none
  | rounds + 1, earlier, c => do
    let c ← s.skipWhile isBlankByte s.rounds c
    if (utf8 s.text).length ≤ c.offset then
      return .ok (earlier ++ [.endOfFile (.point c.position)])
    else
      match ← s.token c with
      | .error e => return .error e
      | .ok (t, c) => tokensFrom rounds (earlier ++ [t]) c

/-- The tokens of the text. -/
def tokens : Option (Except ScanError (List Token)) := s.tokensFrom s.rounds [] .start

end Scanner

end Scriptlet
