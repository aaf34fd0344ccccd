import Scriptlet.Script.Run

/-!
# Reports

The outcome of a script in the form in which it is handed on: whether it succeeded, and its value
or what went wrong.
-/

namespace Scriptlet

/-- The version of this library, as hosts are told it. -/
def version : String := "0.1.0"

/-- The outcome of a script. -/
structure Report where
  success : Bool
  value : Option Value
  error : Option Diagnostic
deriving DecidableEq, Inhabited

namespace Report

def succeeded (value : Value) : Report := ⟨true, some value, none⟩

def failed (error : Diagnostic) : Report := ⟨false, none, some error⟩

variable {σ : Type}

/-- Runs a script with the default settings, and reports. -/
def ofRun (source : SourceFile) (natives : Registry σ) (host : σ) : Report × σ :=
  let o := runScript source natives .default host
  match o.result with
  | .ok value => (succeeded value, o.host)
  | .error e => (failed (e.diagnostic source), o.host)

end Report

end Scriptlet
