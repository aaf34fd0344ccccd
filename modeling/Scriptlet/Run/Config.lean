import Scriptlet.Json.Record

/-!
# Settings of a run

Settings can be given as JSON; those that are not given have their defaults.
-/

namespace Scriptlet

/-- Which function a run starts with, and how deep calls of script functions may nest. -/
structure Config where
  entryPoint : String
  maxCallDepth : UInt64
deriving DecidableEq

namespace Config

/-- A run starts with `main`, and calls nest 64 deep. -/
def default : Config := ⟨"main", 64⟩

instance : Inhabited Config := ⟨default⟩

def withEntryPoint (c : Config) (name : String) : Config := { c with entryPoint := name }

def withMaxCallDepth (c : Config) (depth : UInt64) : Config := { c with maxCallDepth := depth }

def fieldNames : List String := ["entry_point", "max_call_depth"]

def toJson (c : Config) : Json :=
  .object [("entry_point", .string c.entryPoint), ("max_call_depth", .nat c.maxCallDepth.toNat)]

def ofJson? (j : Json) : Option Config := do
  let fs ← j.recordFields? fieldNames
  let entryPoint ← fs.defaulted? "entry_point" default.entryPoint Json.string?
  let maxCallDepth ← fs.defaulted? "max_call_depth" default.maxCallDepth Json.uint64?
  return ⟨entryPoint, maxCallDepth⟩

end Config

end Scriptlet
