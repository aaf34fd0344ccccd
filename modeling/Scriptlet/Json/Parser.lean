import Scriptlet.Json.Basic

/-!
# Reading JSON

`Json.parse?` reads a text that holds one JSON value and nothing else but blanks. The grammar is
the strict one: no comma stands before a closing bracket, a number has no leading zero or plus
sign, and a string holds no character below the space as it is.

A value takes at least one character, and a row of items or members is read value by value, so
twice the length of the text bounds the number of steps.
-/

namespace Scriptlet

namespace Json

/-- Passes over blanks: spaces, tabs and line ends. -/
def skipBlanks (cs : List Char) : List Char :=
  cs.dropWhile fun c => c = ' ' || c = '\t' || c = '\n' || c = '\r'

/-- What follows a fixed text. -/
def after? (expected : List Char) (cs : List Char) : Option (List Char) :=
  match expected, cs with
  | [], cs => some cs
  | e :: es, c :: cs => if e = c then after? es cs else none
  | _ :: _, [] => none

/-- Reads one or more digits. -/
def readDigits (cs : List Char) : Option (List Char × List Char) :=
  match cs.takeWhile Char.isDigit with
  | [] => none
  | d :: ds => some (d :: ds, cs.dropWhile Char.isDigit)

/-- Reads a point and the digits after it, if there is one. -/
def readFraction (cs : List Char) : Option (Option (List Char) × List Char) :=
  match cs with
  | '.' :: cs => (readDigits cs).map fun (ds, cs) => (some ds, cs)
  | _ => some (none, cs)

/-- Reads an exponent, if there is one. -/
def readExponent (cs : List Char) : Option (Option (Bool × List Char) × List Char) :=
  match cs with
  | c :: cs' =>
    if c = 'e' || c = 'E' then
      match cs' with
      | '-' :: cs' => (readDigits cs').map fun (ds, cs) => (some (true, ds), cs)
      | '+' :: cs' => (readDigits cs').map fun (ds, cs) => (some (false, ds), cs)
      | _ => (readDigits cs').map fun (ds, cs) => (some (false, ds), cs)
    else some (none, cs)
  | [] => some (none, cs)

/-- Reads a number from behind its sign. -/
def readUnsigned (negative : Bool) (cs : List Char) : Option (JsonNumber × List Char) := do
  let (whole, cs) ← readDigits cs
  if 1 < whole.length ∧ whole.head? = some '0' then none
  else
    let (fraction, cs) ← readFraction cs
    let (exponent, cs) ← readExponent cs
    return (⟨negative, whole, fraction, exponent⟩, cs)

def readNumber (cs : List Char) : Option (JsonNumber × List Char) :=
  match cs with
  | '-' :: cs => readUnsigned true cs
  | _ => readUnsigned false cs

/-- A piece of a string: a character, or a code unit of 16 bits that was written by its number. -/
inductive Piece
  | char (c : Char)
  | unit (n : Nat)
deriving DecidableEq

def hexDigit? (c : Char) : Option Nat :=
  if c.isDigit then some (c.toNat - '0'.toNat)
  else if 'a' ≤ c ∧ c ≤ 'f' then some (c.toNat - 'a'.toNat + 10)
  else if 'A' ≤ c ∧ c ≤ 'F' then some (c.toNat - 'A'.toNat + 10)
  else none

/-- The number of four hexadecimal digits. -/
def hexUnit? (a b c d : Char) : Option Nat := do
  return ((← hexDigit? a) * 16 + (← hexDigit? b)) * 256 + (← hexDigit? c) * 16 + (← hexDigit? d)

/-- What a backslash and a character stand for. -/
def unescape? (c : Char) : Option Char :=
  match c with
  | '"' => some '"'
  | '\\' => some '\\'
  | '/' => some '/'
  | 'b' => some '\x08'
  | 'f' => some '\x0c'
  | 'n' => some '\n'
  | 'r' => some '\r'
  | 't' => some '\t'
  | _ => none

/-- Puts a piece in front of a row of pieces that was read. -/
def consPiece (p : Piece) : List Piece × List Char → List Piece × List Char
  | (ps, cs) => (p :: ps, cs)

/-- Reads a string from behind its opening quote, and takes its closing quote. -/
def readPieces : List Char → Option (List Piece × List Char)
  | [] => none
  | c :: cs =>
    if c = '"' then some ([], cs)
    else if c = '\\' then
      match cs with
      | 'u' :: h₁ :: h₂ :: h₃ :: h₄ :: rest =>
        match hexUnit? h₁ h₂ h₃ h₄, readPieces rest with
        | some n, some r => some (consPiece (.unit n) r)
        | _, _ => none
      | e :: rest =>
        match unescape? e, readPieces rest with
        | some d, some r => some (consPiece (.char d) r)
        | _, _ => none
      | [] => none
    else if c.toNat < 0x20 then none
    else (readPieces cs).map (consPiece (.char c))

def isHighSurrogate (n : Nat) : Bool := 0xd800 ≤ n && n < 0xdc00

def isLowSurrogate (n : Nat) : Bool := 0xdc00 ≤ n && n < 0xe000

/-- The characters that pieces stand for; a code unit that is one half of a pair needs the other
half beside it. -/
def joinPieces : List Piece → Option (List Char)
  | [] => some []
  | .char c :: ps => (joinPieces ps).map (c :: ·)
  | .unit n :: ps =>
    if isHighSurrogate n then
      match ps with
      | .unit m :: ps =>
        if isLowSurrogate m then
          (joinPieces ps).map (Char.ofNat (0x10000 + (n - 0xd800) * 0x400 + (m - 0xdc00)) :: ·)
        else none
      | _ => none
    else if isLowSurrogate n then none
    else (joinPieces ps).map (Char.ofNat n :: ·)

/-- Reads a string from behind its opening quote; it is `none` if no string has this text. -/
def readString (cs : List Char) : Option (Option String × List Char) :=
  (readPieces cs).map fun (ps, cs) => ((joinPieces ps).map String.ofList, cs)

/-- An object, or `damaged` if one of its names is. -/
def ofMembers (members : List (Option String × Json)) : Json :=
  match members.mapM fun m => m.1.map fun k => (k, m.2) with
  | some members => object members
  | none => damaged

mutual

/-- Reads a value in at most `steps` steps. -/
def readValue : (steps : Nat) → List Char → Option (Json × List Char)
  | 0, _ => none
  | steps + 1, cs =>
    match cs with
    | '"' :: cs => (readString cs).map fun (s, cs) => (s.elim damaged string, cs)
    | '[' :: cs =>
      match skipBlanks cs with
      | ']' :: cs => some (array [], cs)
      | cs => (readItems steps cs).map fun (items, cs) => (array items, cs)
    | '\x7b' :: cs =>
      match skipBlanks cs with
      | '\x7d' :: cs => some (object [], cs)
      | cs => (readMembers steps cs).map fun (members, cs) => (ofMembers members, cs)
    | 'n' :: cs => (after? "ull".toList cs).map fun cs => (null, cs)
    | 't' :: cs => (after? "rue".toList cs).map fun cs => (bool true, cs)
    | 'f' :: cs => (after? "alse".toList cs).map fun cs => (bool false, cs)
    | cs => (readNumber cs).map fun (n, cs) => (number n, cs)

/-- Reads the items of an array and its closing bracket. -/
def readItems : (steps : Nat) → List Char → Option (List Json × List Char)
  | 0, _ => none
  | steps + 1, cs => do
    let (x, cs) ← readValue steps cs
    match skipBlanks cs with
    | ',' :: cs => (readItems steps (skipBlanks cs)).map fun (xs, cs) => (x :: xs, cs)
    | ']' :: cs => return ([x], cs)
    | _ => none

/-- Reads the members of an object and its closing brace. -/
def readMembers : (steps : Nat) → List Char → Option (List (Option String × Json) × List Char)
  | 0, _ => none
  | steps + 1, cs => do
    match cs with
    | '"' :: cs =>
      let (k, cs) ← readString cs
      match skipBlanks cs with
      | ':' :: cs =>
        let (x, cs) ← readValue steps (skipBlanks cs)
        match skipBlanks cs with
        | ',' :: cs => (readMembers steps (skipBlanks cs)).map fun (xs, cs) => ((k, x) :: xs, cs)
        | '\x7d' :: cs => return ([(k, x)], cs)
        | _ => none
      | _ => none
    | _ => none

end

/-- The value that a text holds. -/
def parse? (text : String) : Option Json :=
  let cs := text.toList
  match readValue (2 * cs.length + 2) (skipBlanks cs) with
  | some (j, rest) => if (skipBlanks rest).isEmpty then some j else none
  | none => none

end Json

end Scriptlet
