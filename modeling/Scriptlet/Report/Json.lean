import Scriptlet.Diagnostic.Json
import Scriptlet.Report.Basic
import Scriptlet.Value.Json

/-!
# Reports as JSON

A member that a report lacks is left out. A value that is there is written even if it is `void`,
so a member `value` that holds `null` is not the same as none.
-/

namespace Scriptlet

/-- How many arrays and objects may stand inside one another in a diagnostic, itself not counted. -/
def nestingBelowDiagnostic : Nat := 126

/-- Reads a diagnostic that stands alone. -/
def Diagnostic.parse? (text : String) : Option Diagnostic := do
  Diagnostic.ofJson? nestingBelowDiagnostic (← Json.parse? text)

namespace Report

def fieldNames : List String := ["success", "value", "error"]

def toJson (r : Report) : Json :=
  .object <|
    ("success", .bool r.success) :: (r.value.toList.map fun v => ("value", v.toJson))
      ++ r.error.toList.map fun e => ("error", e.toJson)

def ofJson? (j : Json) : Option Report := do
  let fs ← j.recordFields? fieldNames
  let success ← fs.required? "success" Json.bool?
  let value ← fs.defaulted? "value" none fun v => (Value.ofJson? v).map some
  let error ← fs.defaulted? "error" none
    (Json.orNull? (Diagnostic.ofJson? (nestingBelowDiagnostic - 1)))
  return ⟨success, value, error⟩

/-- The text of a report. -/
def text (r : Report) : String := r.toJson.text

def parse? (text : String) : Option Report := do
  ofJson? (← Json.parse? text)

end Report

end Scriptlet
