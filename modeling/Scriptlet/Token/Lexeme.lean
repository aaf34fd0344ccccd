import Scriptlet.Decimal.Digits
import Scriptlet.Token.Kind

/-!
# Lexemes

`readLexeme` reads one token from the front of a text, without regard to where it stands. It says
what the token is and how many characters it takes beyond the first. The first character decides
which rule applies, and every rule takes as much as it can:

* a newline, or one of `( ) { } , + - * /`;
* `==`, `!=` or `:=`;
* a run of digits, read as a whole number;
* a run of letters, digits and underscores that starts with no digit, which is a reserved word or an
  identifier;
* a string literal, which ends on the line it starts on.
-/

namespace Scriptlet

/-- Why a text cannot be read on. -/
inductive LexicalFault
  /-- No token starts with this character. -/
  | unexpectedCharacter (c : Char)
  /-- A string literal has no closing quote on its line. -/
  | unterminatedString
  /-- A backslash stands before a character that it does not escape. -/
  | invalidEscape (c : Char)
deriving DecidableEq

/-- A fault, and how many characters of the lexeme stand before the place where it shows. -/
structure LexicalError where
  fault : LexicalFault
  offset : Nat
deriving DecidableEq

/-- Characters that separate tokens and are none themselves. -/
def isBlank (c : Char) : Bool := c = ' ' || c = '\t' || c = '\r'

def isWordChar (c : Char) : Bool := c.isAlphanum || c = '_'

/-- The symbols of one character. -/
def Symbol.ofChar? (c : Char) : Option Symbol :=
  match c with
  | '(' => some .lparen
  | ')' => some .rparen
  | '\x7b' => some .lbrace
  | '\x7d' => some .rbrace
  | ',' => some .comma
  | '+' => some .plus
  | '-' => some .minus
  | '*' => some .star
  | '/' => some .slash
  | _ => none

/-- The symbols of two characters, the second of which is an equals sign. -/
def Symbol.beforeEquals? (c : Char) : Option Symbol :=
  match c with
  | '=' => some .eqEq
  | '!' => some .bangEq
  | ':' => some .colonEq
  | _ => none

/-- The character that an escape stands for, by the character after the backslash. -/
def unescape? (c : Char) : Option Char :=
  match c with
  | '"' => some '"'
  | '\\' => some '\\'
  | 'n' => some '\n'
  | 't' => some '\t'
  | 'r' => some '\r'
  | _ => none

/-- Puts `n` characters, which stand for `c`, in front of what was read. -/
def putBefore (n : Nat) (c : Char) :
    Except LexicalError (List Char × Nat) → Except LexicalError (List Char × Nat)
  | .ok (value, length) => .ok (c :: value, n + length)
  | .error e => .error { e with offset := n + e.offset }

/-- Reads a string literal from behind its opening quote: what it stands for, and its length with
the closing quote. A backslash at the end of the line leaves the literal unterminated. -/
def readString : List Char → Except LexicalError (List Char × Nat)
  | [] => .error ⟨.unterminatedString, 0⟩
  | c :: cs =>
    if c = '\n' then .error ⟨.unterminatedString, 0⟩
    else if c = '"' then .ok ([], 1)
    else if c = '\\' then
      match cs with
      | [] => .error ⟨.unterminatedString, 1⟩
      | d :: ds =>
        if d = '\n' then .error ⟨.unterminatedString, 1⟩
        else
          match unescape? d with
          | some e => putBefore 2 e (readString ds)
          | none => .error ⟨.invalidEscape d, 0⟩
    else putBefore 1 c (readString cs)

/-- What a word stands for. -/
def wordKind (word : List Char) : Token.Kind :=
  match Keyword.ofText? (String.ofList word) with
  | some k => .keyword k
  | none => .identifier (String.ofList word)

/-- The token that starts with `c`, and the number of characters of `cs` that belong to it. -/
def readLexeme (c : Char) (cs : List Char) : Except LexicalError (Token.Kind × Nat) :=
  if c = '\n' then .ok (.newline, 0)
  else if c.isDigit then
    let ds := cs.takeWhile Char.isDigit
    .ok (.number (Float.ofNat (digitsValue (c :: ds))), ds.length)
  else if isWordChar c then
    let ws := cs.takeWhile isWordChar
    .ok (wordKind (c :: ws), ws.length)
  else if c = '"' then
    match readString cs with
    | .ok (value, length) => .ok (.string (String.ofList value), length)
    | .error e => .error { e with offset := 1 + e.offset }
  else
    match Symbol.ofChar? c, Symbol.beforeEquals? c, cs with
    | some s, _, _ => .ok (.symbol s, 0)
    | none, some s, '=' :: _ => .ok (.symbol s, 1)
    | none, _, _ => .error ⟨.unexpectedCharacter c, 0⟩

end Scriptlet
