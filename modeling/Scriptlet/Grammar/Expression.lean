import Scriptlet.Grammar.Reader

/-!
# Reading expressions

Operators are read level by level: an operand of `==` and `!=` holds `+` and `-`, and an operand
of these holds `*` and `/`. But the right operand of every operator is a whole expression again,
so chains group to the right (`5 - 3 - 4` is `5 - (3 - 4)`), and so does a looser operator to the
right of a tighter one (`2 * 3 + 4` is `2 * (3 + 4)`).

`expression` has a budget of levels of nesting. Each right operand and each argument of a call
lies one level deeper than the expression it belongs to.
-/

namespace Scriptlet

/-- The operator that a token stands for. -/
def Operator.ofKind? : Token.Kind → Option Operator
  | .symbol .eqEq => some .eq
  | .symbol .bangEq => some .notEq
  | .symbol .plus => some .add
  | .symbol .minus => some .sub
  | .symbol .star => some .mul
  | .symbol .slash => some .div
  | _ => none

namespace Reader

/-- A literal or a variable. -/
def primary : Reader Expr := do
  match (← peek).kind with
  | .number x => return .number x (← advance).span
  | .keyword .trueKw => return .bool true (← advance).span
  | .keyword .falseKw => return .bool false (← advance).span
  | .string s => return .string s (← advance).span
  | .identifier name => return .identifier name (← advance).span
  | _ => unexpected .expression none

/-- The arguments of a call, up to its closing parenthesis. -/
def arguments (nested : Reader Expr) : Reader (List Expr) := do
  if ← sees (.symbol .rparen) then return [] else commaSeparated fun _ => nested

/-- A call, or else a primary. -/
def operand (nested : Reader Expr) : Reader Expr := do
  match (← peek).kind with
  | .identifier _ =>
    if ← seesAfter (.symbol .lparen) then
      let callee ← identifier
      let _ ← advance
      let args ← arguments nested
      let close ← expect (.symbol .rparen)
      return .call callee args (callee.span.merge close.span)
    else
      primary
  | _ => primary

/-- An operand, and if an operator of the level follows, that operator and a nested expression. -/
def chain (level : Level) (operand nested : Reader Expr) : Reader Expr := do
  let lhs ← operand
  match Operator.ofKind? (← peek).kind with
  | some op =>
    if op.level = level then
      let opToken ← advance
      let rhs ← nested
      return .binary level lhs op opToken.span rhs (lhs.span.merge rhs.span)
    else
      return lhs
  | none => return lhs

def factor (nested : Reader Expr) : Reader Expr := chain .factor (operand nested) nested

def term (nested : Reader Expr) : Reader Expr := chain .term (factor nested) nested

def equality (nested : Reader Expr) : Reader Expr := chain .equality (term nested) nested

/-- An expression that nests at most `budget` levels deep. -/
def expression : (budget : Nat) → Reader Expr
  | 0 => do throw (.nestingLimit (← peek).span)
  | budget + 1 => equality (expression budget)

end Reader

end Scriptlet
