import Scriptlet.Json.Number

/-!
# JSON

A JSON value, and its text without blanks. The members of an object stand in the order in which
they are written, and a name may come up more than once.

The text of a string can hold one half of a pair of surrogates without the other. Such a text is
JSON, but there is no string that it stands for; `damaged` is its value, and the value of an
object with such a name.
-/

namespace Scriptlet

/-- A JSON value. -/
inductive Json
  | null
  | bool (b : Bool)
  | number (n : JsonNumber)
  | string (s : String)
  | array (items : List Json)
  | object (members : List (String × Json))
  | damaged
deriving Inhabited

namespace Json

/-- How a character is written inside quotes: quotes, backslashes and what is below the space are
escaped, and nothing else. -/
def escape (c : Char) : List Char :=
  match c with
  | '"' => ['\\', '"']
  | '\\' => ['\\', '\\']
  | '\x08' => ['\\', 'b']
  | '\x0c' => ['\\', 'f']
  | '\n' => ['\\', 'n']
  | '\r' => ['\\', 'r']
  | '\t' => ['\\', 't']
  | _ =>
    if c.toNat < 0x20 then
      ['\\', 'u', '0', '0', Nat.digitChar (c.toNat / 16), Nat.digitChar (c.toNat % 16)]
    else [c]

/-- A string between quotes. -/
def writeString (s : String) : List Char := '"' :: s.toList.flatMap escape ++ ['"']

mutual

/-- The text of a value. -/
def write : Json → List Char
  | null => "null".toList
  | bool true => "true".toList
  | bool false => "false".toList
  | number n => n.write
  | string s => writeString s
  | array items => '[' :: writeItems items ++ [']']
  | object members => '\x7b' :: writeMembers members ++ ['\x7d']
  | damaged => "\"\\ud800\"".toList

/-- The texts of values, with commas between them. -/
def writeItems : List Json → List Char
  | [] => []
  | [x] => x.write
  | x :: xs => x.write ++ ',' :: writeItems xs

/-- The texts of members, with commas between them. -/
def writeMembers : List (String × Json) → List Char
  | [] => []
  | [(k, x)] => writeString k ++ ':' :: x.write
  | (k, x) :: xs => writeString k ++ ':' :: x.write ++ ',' :: writeMembers xs

end

/-- The text of a value. -/
def text (j : Json) : String := String.ofList j.write

/-- A natural number. -/
def nat (n : Nat) : Json := number (.ofNat n)

/-- A number, or `null` if it is not finite. -/
def float (x : Float) : Json :=
  match JsonNumber.ofFloat? x with
  | some n => number n
  | none => null

mutual

/-- Does a value stand for something, with all numbers in range and at most `depth` arrays and
objects inside one another? -/
def sound (depth : Nat) : Json → Bool
  | null | bool _ | string _ => true
  | number n => n.float?.isSome
  | array items =>
    match depth with
    | 0 => false
    | depth + 1 => soundItems depth items
  | object members =>
    match depth with
    | 0 => false
    | depth + 1 => soundMembers depth members
  | damaged => false

def soundItems (depth : Nat) : List Json → Bool
  | [] => true
  | x :: xs => x.sound depth && soundItems depth xs

def soundMembers (depth : Nat) : List (String × Json) → Bool
  | [] => true
  | (_, x) :: xs => x.sound depth && soundMembers depth xs

end

end Json

end Scriptlet
