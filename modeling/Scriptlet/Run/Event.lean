import Scriptlet.Value.Basic

/-!
# Events of a run

What a run tells of itself while it goes on: calls and returns of script functions with their
depth, variables as they get their values, and calls of native functions.
-/

namespace Scriptlet

/-- A step of a run. -/
inductive Event
  /-- A script was read. -/
  | parsed (file : String) (functions : Nat)
  /-- A script function starts, at a depth counted from one. -/
  | invoke (function : String) (depth : Nat)
  /-- A variable is about to get its value. -/
  | declare (name : String) (value : Value)
  | returned (function : String) (value : Value)
  | returnedVoid (function : String)
  | nativeCall (module function : String)
deriving DecidableEq

namespace Event

/-- How much detail an event belongs to. -/
def levelText : Event → String
  | declare .. => "TRACE"
  | _ => "DEBUG"

def message : Event → String
  | parsed .. => "parsed"
  | invoke .. => "invoke"
  | declare .. => "declare"
  | returned .. => "return"
  | returnedVoid .. => "return void"
  | nativeCall .. => "native call"

/-- The named details of an event. -/
def fields : Event → List (String × String)
  | parsed file functions => [("file", file), ("functions", toString functions)]
  | invoke function depth => [("function", function), ("depth", toString depth)]
  | declare name value => [("name", name), ("value", value.text)]
  | returned function value => [("function", function), ("value", value.text)]
  | returnedVoid function => [("function", function)]
  | nativeCall module function => [("module", module), ("function", function)]

end Event

end Scriptlet
