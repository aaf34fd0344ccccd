import Scriptlet.Text.Combining
import Scriptlet.Text.Unprintable

/-!
# Quoted text

`quoted` writes a text between double quotes so that it can be seen: quotes, backslashes and the
common controls get short escapes, and what has no print, or would attach itself to the character
before it, is written by its code point. `escapeChar` does the same for a single character, except
that it leaves only the printable part of ASCII as it is, and escapes both kinds of quote.
-/

namespace Scriptlet

/-- A number in lower-case hexadecimal digits. -/
def hex (n : Nat) : List Char := Nat.toDigits 16 n

/-- A character written by its code point. -/
def codePointEscape (c : Char) : List Char := "\\u\x7b".toList ++ hex c.toNat ++ ['\x7d']

/-- How one character is written between double quotes. -/
def quotedChar (c : Char) : List Char :=
  match c with
  | '\x00' => ['\\', '0']
  | '\t' => ['\\', 't']
  | '\r' => ['\\', 'r']
  | '\n' => ['\\', 'n']
  | '"' => ['\\', '"']
  | '\\' => ['\\', '\\']
  | _ =>
    if isCombining c || isUnprintable c then codePointEscape c else [c]

/-- A text between double quotes, with whatever could not be seen escaped. -/
def quoted (s : String) : String :=
  String.ofList ('"' :: s.toList.flatMap quotedChar ++ ['"'])

/-- How a message names a single character. -/
def escapeChar (c : Char) : List Char :=
  match c with
  | '\t' => ['\\', 't']
  | '\r' => ['\\', 'r']
  | '\n' => ['\\', 'n']
  | '\'' => ['\\', '\'']
  | '"' => ['\\', '"']
  | '\\' => ['\\', '\\']
  | _ => if 0x20 ≤ c.toNat && c.toNat ≤ 0x7e then [c] else codePointEscape c

end Scriptlet
