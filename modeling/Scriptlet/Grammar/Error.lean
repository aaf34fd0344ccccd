import Scriptlet.Diagnostic.Basic
import Scriptlet.Expr
import Scriptlet.Token.Kind

/-!
# Errors of the grammar

The ways in which a row of tokens fails to be a program, each with what a reader needs to mend it.
-/

namespace Scriptlet

/-- How deep expressions may nest. -/
def maxNesting : Nat := 256

/-- What the grammar asks for at some token. -/
inductive Expected
  | identifier
  | stringLiteral
  | expression
  | token (kind : Token.Kind)
deriving DecidableEq

def Expected.text : Expected → String
  | identifier => "identifier"
  | stringLiteral => "string literal"
  | expression => "expression"
  | token kind => kind.describe

/-- A rule that a reader may not know. -/
inductive Hint
  | importsFirst
  | bodyOnNextLine
  | closeBody
deriving DecidableEq

def Hint.text : Hint → String
  | importsFirst => "imports must come before every function declaration"
  | bodyOnNextLine => "start the function body on the line after '\x7b'"
  | closeBody => "close the function body with '\x7d'"

/-- Why a row of tokens is no program. -/
inductive ParseError
  | unexpected (expected : Expected) (got : Token) (hint : Option Hint)
  /-- An expression nests too deep at the token with this span. -/
  | nestingLimit (span : Span)
  /-- A name is defined twice; its first definition names it at `earlier`. -/
  | duplicateFunction (name : Identifier) (earlier : Span)
  | duplicateParameter (name : Identifier) (function : String)
deriving DecidableEq

namespace ParseError

def code : ParseError → ErrorCode
  | unexpected _ _ _ => .unexpectedToken
  | nestingLimit _ => .nestingLimit
  | duplicateFunction _ _ => .duplicateFunction
  | duplicateParameter _ _ => .duplicateVariable

def span : ParseError → Span
  | unexpected _ got _ => got.span
  | nestingLimit span => span
  | duplicateFunction name _ | duplicateParameter name _ => name.span

def message : ParseError → String
  | unexpected expected got _ => "expected " ++ expected.text ++ ", got " ++ got.kind.describe
  | nestingLimit _ => "maximum expression nesting depth is " ++ toString maxNesting
  | duplicateFunction name earlier =>
    "function '" ++ name.name ++ "' is already declared at " ++ earlier.text
  | duplicateParameter name function =>
    "parameter '" ++ name.name ++ "' is declared twice in function '" ++ function ++ "'"

def suggestion? : ParseError → Option String
  | unexpected _ _ hint => hint.map Hint.text
  | _ => none

/-- A grammar error told with the line it blames. -/
def diagnostic (e : ParseError) (source : SourceFile) : Diagnostic :=
  { Diagnostic.located source e.code e.message e.span with suggestion := e.suggestion? }

end ParseError

end Scriptlet
