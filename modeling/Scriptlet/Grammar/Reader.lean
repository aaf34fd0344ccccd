import Scriptlet.Grammar.Error

/-!
# Reading tokens

A `Reader` takes tokens from the front of a row, or fails. Nothing that it takes is given back,
and what it does depends on the next two tokens at most. The readers below look at the next token,
take it if it fits, and otherwise fail with what they asked for.
-/

namespace Scriptlet

/-- Reads something from the front of a row of tokens. -/
abbrev Reader := StateT (List Token) (Except ParseError)

/-- The first token of a row; a row without tokens is at its end. -/
def nextToken (ts : List Token) : Token := ts.headD (.endOfFile (.point .first))

/-- A row of tokens with its end marked: it takes the place of the last token. -/
def withEnd (ts : List Token) : List Token :=
  match ts.getLast? with
  | none => [.endOfFile (.point .first)]
  | some t => if t.kind = .endOfFile then ts else ts ++ [.endOfFile t.span]

namespace Reader

variable {α : Type}

/-- The next token, which stays. -/
def peek : Reader Token := return nextToken (← get)

/-- Takes the next token. -/
def advance : Reader Token := do
  let t ← peek
  modify List.tail
  return t

/-- Is the next token of this kind? -/
def sees (kind : Token.Kind) : Reader Bool := return (← peek).kind = kind

/-- Is the token after the next of this kind? -/
def seesAfter (kind : Token.Kind) : Reader Bool := return (nextToken (← get).tail).kind = kind

/-- Fails at the next token. -/
def unexpected (expected : Expected) (hint : Option Hint) : Reader α := do
  throw (.unexpected expected (← peek) hint)

/-- Takes the next token if it is of this kind. -/
def accept (kind : Token.Kind) : Reader Bool := do
  if ← sees kind then
    let _ ← advance
    return true
  else
    return false

/-- Takes a token of this kind. -/
def expect (kind : Token.Kind) : Reader Token := do
  if ← sees kind then advance else unexpected (.token kind) none

/-- Takes an identifier. -/
def identifier : Reader Identifier := do
  match (← peek).kind with
  | .identifier name => return ⟨name, (← advance).span⟩
  | _ => unexpected .identifier none

/-- Takes a string literal: what it stands for, and where it stands. -/
def stringLiteral : Reader (String × Span) := do
  match (← peek).kind with
  | .string s => return (s, (← advance).span)
  | _ => unexpected .stringLiteral none

/-- Takes line ends as long as there are any. -/
def skipNewlines : Reader Unit := modify (·.dropWhile fun t => t.kind = .newline)

/-- A bound on how often a reader can take something. -/
def tokensLeft : Reader Nat := return (← get).length

/-- Reads items as long as each but the last is followed by a comma, at most `rounds` many. An item
is told the items before it, the latest first. -/
def itemsWithin (item : List α → Reader α) : (rounds : Nat) → List α → Reader (List α)
  | 0, _ => return []
  | rounds + 1, earlier => do
    let x ← item earlier
    if ← accept (.symbol .comma) then
      return x :: (← itemsWithin item rounds (x :: earlier))
    else
      return [x]

/-- Reads one or more items with commas between them. -/
def commaSeparated (item : List α → Reader α) : Reader (List α) := do
  itemsWithin item (← tokensLeft) []

end Reader

end Scriptlet
