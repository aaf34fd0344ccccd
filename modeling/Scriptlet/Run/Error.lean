import Scriptlet.Diagnostic.Basic
import Scriptlet.Value.Basic

/-!
# Errors of a run

The ways in which a run can fail once its script has been read. All but a missing entry point
blame a stretch of the script.
-/

namespace Scriptlet

/-- Why a run failed. -/
inductive RuntimeError
  | duplicateVariable (name : String) (span : Span)
  | undeclaredVariable (name : String) (span : Span)
  | unknownFunction (name : String) (span : Span)
  | unknownModule (module function : String) (span : Span)
  | unknownNativeFunction (module function : String) (span : Span)
  | arityMismatch (name : String) (expected actual : Nat) (span : Span)
  | typeMismatch (op : Operator) (lhs rhs : Value.Kind) (span : Span)
  /-- There is no function of the name that was asked for. -/
  | missingEntryPoint (name : String)
  | invalidEntryPoint (name : String) (span : Span)
  /-- A native function failed with a message. -/
  | native (module function message : String) (span : Span)
  | callDepthExceeded (name : String) (limit : Nat) (span : Span)
deriving DecidableEq

namespace RuntimeError

def code : RuntimeError → ErrorCode
  | duplicateVariable .. => .duplicateVariable
  | undeclaredVariable .. => .undeclaredVariable
  | unknownFunction .. => .unknownFunction
  | unknownModule .. => .unknownModule
  | unknownNativeFunction .. => .unknownNativeFunction
  | arityMismatch .. => .arityMismatch
  | typeMismatch .. => .typeMismatch
  | missingEntryPoint .. | invalidEntryPoint .. => .entryPoint
  | native .. => .nativeFailure
  | callDepthExceeded .. => .callDepth

/-- What is to blame, if anything in the script is. -/
def span? : RuntimeError → Option Span
  | duplicateVariable _ s | undeclaredVariable _ s | unknownFunction _ s | unknownModule _ _ s
  | unknownNativeFunction _ _ s | arityMismatch _ _ _ s | typeMismatch _ _ _ s
  | invalidEntryPoint _ s | native _ _ _ s | callDepthExceeded _ _ s => some s
  | missingEntryPoint _ => none

def message : RuntimeError → String
  | duplicateVariable name _ => "variable '" ++ name ++ "' is already declared in this scope"
  | undeclaredVariable name _ => "undeclared variable '" ++ name ++ "'"
  | unknownFunction name _ => "unknown function '" ++ name ++ "'"
  | unknownModule module function _ =>
    "unknown native module '" ++ module ++ "' (needed by '" ++ function ++ "')"
  | unknownNativeFunction module function _ =>
    "native module '" ++ module ++ "' has no function '" ++ function ++ "'"
  | arityMismatch name expected actual _ =>
    "function '" ++ name ++ "' expects " ++ toString expected ++ " argument(s), got "
      ++ toString actual
  | typeMismatch op lhs rhs _ =>
    "cannot apply '" ++ op.text ++ "' to " ++ lhs.text ++ " and " ++ rhs.text
  | missingEntryPoint name => "program has no function '" ++ name ++ "' to run"
  | invalidEntryPoint name _ =>
    "entry point '" ++ name ++ "' must be a script function without parameters"
  | native module function message _ =>
    "native function '" ++ module ++ "." ++ function ++ "' failed: " ++ message
  | callDepthExceeded name limit _ =>
    "call to '" ++ name ++ "' exceeds the maximum call depth of " ++ toString limit

/-- What to write to mend the script, where that is clear. -/
def suggestion? : RuntimeError → Option String
  | missingEntryPoint name | invalidEntryPoint name _ =>
    some ("declare 'func " ++ name ++ "() \x7b' with no parameters")
  | undeclaredVariable name _ =>
    some ("declare '" ++ name ++ "' with '" ++ name ++ " := ...' before using it")
  | _ => none

/-- An error of a run told with the line it blames. Where nothing in the script is to blame, it
points to the start and quotes nothing. -/
def diagnostic (e : RuntimeError) (source : SourceFile) : Diagnostic :=
  let plain : Diagnostic :=
    match e.span? with
    | some span => .located source e.code e.message span
    | none => .quoting source.name e.code e.message (.point .first) ""
  { plain with suggestion := e.suggestion? }

end RuntimeError

/-- The value of an operator that stands at a span. -/
def Value.applyAt (op : Operator) (a b : Value) (span : Span) : Except RuntimeError Value :=
  match Value.operate? op a b with
  | some value => .ok value
  | none => .error (.typeMismatch op a.kind b.kind span)

end Scriptlet
