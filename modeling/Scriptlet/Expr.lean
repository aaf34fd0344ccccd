import Scriptlet.Decimal.Positional
import Scriptlet.Operator
import Scriptlet.Source.Span
import Scriptlet.Text.Quoted

/-!
# Expressions

An expression is a literal, a variable, a call or an operator between two expressions, each with
the span it was read from. `Expr.text` puts every operator between parentheses, so that the text
shows how a chain groups: `5 - 3 - 4` is shown as `(5 - (3 - 4))`.
-/

namespace Scriptlet

/-- A name where it stands. -/
structure Identifier where
  name : String
  span : Span
deriving DecidableEq, Inhabited

/-- Something that has a value. -/
inductive Expr
  /-- An operator between two operands, as a node of some level. -/
  | binary (level : Level) (lhs : Expr) (op : Operator) (opSpan : Span) (rhs : Expr) (span : Span)
  | call (callee : Identifier) (args : List Expr) (span : Span)
  | number (x : Float) (span : Span)
  | bool (b : Bool) (span : Span)
  | string (s : String) (span : Span)
  | identifier (name : String) (span : Span)
deriving Inhabited

namespace Expr

def span : Expr → Span
  | binary _ _ _ _ _ s | call _ _ s | number _ s | bool _ s | string _ s | identifier _ s => s

mutual

/-- An expression with parentheses around every operator. -/
def text : Expr → String
  | binary _ lhs op _ rhs _ => "(" ++ lhs.text ++ " " ++ op.text ++ " " ++ rhs.text ++ ")"
  | call callee args _ => callee.name ++ "(" ++ String.intercalate ", " (texts args) ++ ")"
  | number x _ => numberText x
  | bool b _ => if b then "true" else "false"
  | string s _ => quoted s
  | identifier name _ => name

def texts : List Expr → List String
  | [] => []
  | e :: es => e.text :: texts es

end

end Expr

end Scriptlet
