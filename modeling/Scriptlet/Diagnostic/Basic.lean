import Scriptlet.Source.File
import Scriptlet.Source.Span

/-!
# Diagnostics

What a reader of a script is told when something is wrong: where, under which code, and in which
words. The hundreds of a code decide its category, and every diagnostic is fatal.
-/

namespace Scriptlet

/-- The stage or rule that a code belongs to. -/
inductive Category
  | lex
  | parse
  | binding
  | resolution
  | arity
  | type
  | entryPoint
  | runtime
deriving DecidableEq, Inhabited

/-- The category as messages write it. -/
def Category.text : Category → String
  | lex => "lex"
  | parse => "parse"
  | binding => "binding"
  | resolution => "resolution"
  | arity => "arity"
  | type => "type"
  | entryPoint => "entry point"
  | runtime => "runtime"

/-- How grave a diagnostic is; there is one degree. -/
inductive Severity
  | error
deriving DecidableEq, Inhabited

/-- The number of an error. -/
structure ErrorCode where
  number : UInt16
deriving DecidableEq, Inhabited

namespace ErrorCode

def unexpectedCharacter : ErrorCode := ⟨100⟩
def unterminatedString : ErrorCode := ⟨101⟩
def invalidEscape : ErrorCode := ⟨102⟩
def unexpectedToken : ErrorCode := ⟨200⟩
def nestingLimit : ErrorCode := ⟨201⟩
def duplicateFunction : ErrorCode := ⟨300⟩
def duplicateVariable : ErrorCode := ⟨301⟩
def undeclaredVariable : ErrorCode := ⟨302⟩
def unknownFunction : ErrorCode := ⟨400⟩
def unknownModule : ErrorCode := ⟨401⟩
def unknownNativeFunction : ErrorCode := ⟨402⟩
def arityMismatch : ErrorCode := ⟨500⟩
def typeMismatch : ErrorCode := ⟨600⟩
def entryPoint : ErrorCode := ⟨700⟩
def nativeFailure : ErrorCode := ⟨800⟩
def callDepth : ErrorCode := ⟨801⟩

/-- The hundreds decide; a code outside 100 to 799 counts as a runtime error. -/
def category (c : ErrorCode) : Category :=
  match c.number.toNat / 100 with
  | 1 => .lex
  | 2 => .parse
  | 3 => .binding
  | 4 => .resolution
  | 5 => .arity
  | 6 => .type
  | 7 => .entryPoint
  | _ => .runtime

/-- A code as messages write it. -/
def text (c : ErrorCode) : String := "E" ++ toString c.number.toNat

end ErrorCode

/-- An error in a script, told with the line it blames. -/
structure Diagnostic where
  file : String
  code : ErrorCode
  severity : Severity
  category : Category
  message : String
  span : Span
  /-- The line that the span starts on. -/
  sourceLine : String
  suggestion : Option String
deriving DecidableEq, Inhabited

namespace Diagnostic

/-- A diagnostic without a suggestion, in the category of its code. -/
def quoting (file : String) (code : ErrorCode) (message : String) (span : Span)
    (sourceLine : String) : Diagnostic where
  file := file
  code := code
  severity := .error
  category := code.category
  message := message
  span := span
  sourceLine := sourceLine
  suggestion := none

/-- A diagnostic that quotes its line from `source`, or an empty line if there is no such line. -/
def located (source : SourceFile) (code : ErrorCode) (message : String) (span : Span) :
    Diagnostic :=
  .quoting source.name code message span ((source.line? span.start.line).getD "")

/-- The one-line form: place, code, category and message. -/
def text (d : Diagnostic) : String :=
  d.file ++ ":" ++ d.span.text ++ ": " ++ d.code.text ++ " [" ++ d.category.text ++ "] "
    ++ d.message

end Diagnostic

end Scriptlet
