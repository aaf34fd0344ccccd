import Scriptlet.Json.Record
import Scriptlet.Value.Basic

/-!
# Values as JSON

A value stands for itself, and `void` for `null`. A number that is not finite is written as `null`
too, and so is not read back.
-/

namespace Scriptlet

namespace Value

def toJson : Value → Json
  | number x => .float x
  | bool b => .bool b
  | string s => .string s
  | void => .null

def ofJson? : Json → Option Value
  | .null => some void
  | .bool b => some (bool b)
  | .string s => some (string s)
  | .number n => n.float?.map number
  | _ => none

end Value

end Scriptlet
