import Scriptlet.Decimal.Positional
import Scriptlet.Operator

/-!
# Values

A script computes with numbers, booleans and strings; `void` is what a function without a `return`
gives. `Value.operate?` says what the operators do: equality compares values of one kind and is
false of values of different kinds, under `!=` as well as under `==`; arithmetic is defined on two
numbers, and `+` also joins two strings.
-/

namespace Scriptlet

/-- What a script computes with. -/
inductive Value
  | number (x : Float)
  | bool (b : Bool)
  | string (s : String)
  | void
deriving DecidableEq, Inhabited

namespace Value

/-- The kinds of values. -/
inductive Kind
  | number
  | bool
  | string
  | void
deriving DecidableEq, Inhabited

/-- A kind as messages name it. -/
def Kind.text : Kind → String
  | number => "number"
  | bool => "bool"
  | string => "string"
  | void => "void"

def kind : Value → Kind
  | number _ => .number
  | bool _ => .bool
  | string _ => .string
  | void => .void

/-- A value as scripts show it; a string stands for itself. -/
def text : Value → String
  | number x => numberText x
  | bool true => "true"
  | bool false => "false"
  | string s => s
  | void => "void"

def sameKind (a b : Value) : Bool := a.kind = b.kind

/-- Equality as scripts see it: numbers compare as numbers, so a number that is not a number differs
from itself and the two zeros are equal. -/
def equal : Value → Value → Bool
  | number x, number y => x == y
  | bool a, bool b => a == b
  | string s, string t => s == t
  | void, void => true
  | _, _ => false

/-- The value of an operator on two operands, unless their kinds do not fit. -/
def operate? (op : Operator) (a b : Value) : Option Value :=
  match op with
  | .eq => some (bool (a.equal b))
  | .notEq => some (bool (a.sameKind b && !a.equal b))
  | .add =>
    match a, b with
    | number x, number y => some (number (x + y))
    | string s, string t => some (string (s ++ t))
    | _, _ => none
  | .sub =>
    match a, b with
    | number x, number y => some (number (x - y))
    | _, _ => none
  | .mul =>
    match a, b with
    | number x, number y => some (number (x * y))
    | _, _ => none
  | .div =>
    match a, b with
    | number x, number y => some (number (x / y))
    | _, _ => none

end Value

end Scriptlet
