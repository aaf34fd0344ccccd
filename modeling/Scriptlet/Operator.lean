/-!
# Operators

The six binary operators and their three levels. The levels name the kinds of nodes in a parsed
expression; they do not decide how a chain groups, which is always to the right.
-/

namespace Scriptlet

/-- A level of binary operators, from the loosest to the tightest. -/
inductive Level
  | equality
  | term
  | factor
deriving DecidableEq, Inhabited

/-- A binary operator. -/
inductive Operator
  | eq
  | notEq
  | add
  | sub
  | mul
  | div
deriving DecidableEq, Inhabited

namespace Operator

/-- The level that an operator is read on. -/
def level : Operator → Level
  | eq | notEq => .equality
  | add | sub => .term
  | mul | div => .factor

/-- An operator as scripts write it. -/
def text : Operator → String
  | eq => "=="
  | notEq => "!="
  | add => "+"
  | sub => "-"
  | mul => "*"
  | div => "/"

end Operator

end Scriptlet
