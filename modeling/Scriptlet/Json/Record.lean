import Scriptlet.Json.Parser

/-!
# Reading what JSON holds

Readers of JSON values by what they are to hold. A record is an object with known names, or the
array of their values in order; of the known names none may come up twice, and unknown names are
passed over.
-/

namespace Scriptlet

namespace Json

def bool? : Json → Option Bool
  | bool b => some b
  | _ => none

def string? : Json → Option String
  | string s => some s
  | _ => none

/-- A whole number below a bound. -/
def natBelow? (bound : Nat) : Json → Option Nat
  | number n =>
    match n.nat? with
    | some k => if k < bound then some k else none
    | none => none
  | _ => none

def uint16? (j : Json) : Option UInt16 := (j.natBelow? UInt16.size).map UInt16.ofNat

def uint32? (j : Json) : Option UInt32 := (j.natBelow? UInt32.size).map UInt32.ofNat

def uint64? (j : Json) : Option UInt64 := (j.natBelow? UInt64.size).map UInt64.ofNat

/-- A value that may be missing. -/
def orNull? {α : Type} (read : Json → Option α) : Json → Option (Option α)
  | null => some none
  | j => (read j).map some

/-- One of several names: a string, or an object that gives `null` to the name. -/
def choice? {α : Type} (choices : List (String × α)) : Json → Option α
  | string s => choices.lookup s
  | object [(s, null)] => choices.lookup s
  | _ => none

/-- The values of known names. -/
abbrev Fields := List (String × Json)

/-- The members of an object with known names, each of which comes up at most once. -/
def known? (names : List String) (members : List (String × Json)) : Option Fields :=
  let fields := members.filter fun m => m.1 ∈ names
  if (fields.map Prod.fst).Nodup then some fields else none

/-- The fields of an object. -/
def objectFields? (names : List String) : Json → Option Fields
  | object members => known? names members
  | _ => none

/-- The fields of a record, which is an object or an array with its values in order. -/
def recordFields? (names : List String) : Json → Option Fields
  | object members => known? names members
  | array items => if items.length ≤ names.length then some (names.zip items) else none
  | _ => none

namespace Fields

variable {α : Type}

/-- A field that must be there. -/
def required? (fs : Fields) (name : String) (read : Json → Option α) : Option α :=
  match fs.lookup name with
  | some j => read j
  | none => none

/-- A field that has a default. -/
def defaulted? (fs : Fields) (name : String) (default : α) (read : Json → Option α) : Option α :=
  match fs.lookup name with
  | some j => read j
  | none => some default

end Fields

end Json

end Scriptlet
