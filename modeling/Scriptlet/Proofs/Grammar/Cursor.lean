import Scriptlet.Grammar.Program

/-!
# Reading with a cursor

A `Reader` takes tokens from the front of a row, and its nesting is bounded by a budget. Here the
same grammar is read by a `Walker`: it has a fixed row and a cursor, which holds the index of the
next token and the number of open expressions. Nothing keeps such a walk on the row, and nothing
but its own count keeps its nesting bounded.

A walk records what it does with the cursor: each index it asks for, each token it takes and each
expression it enters. The limit on nesting can be lifted, to see what it changes. Loops and nested
expressions are given a number of rounds; a walk that needs more has no result.

## Main definitions

* `Walk` — what is done with a cursor, and how it ends
* `Walker.program` — a whole program, read with a cursor
* `firstDeep` — where a walk first nests too deep
-/

namespace Scriptlet

/-- The index of the next token, and how many expressions are open. -/
structure Cursor where
  position : Nat
  depth : Nat
deriving DecidableEq

namespace Cursor

/-- At the first token, outside of all expressions. -/
def start : Cursor := ⟨0, 0⟩

/-- Past the next token. -/
def next (c : Cursor) : Cursor := { c with position := c.position + 1 }

/-- Inside one more expression. -/
def deeper (c : Cursor) : Cursor := { c with depth := c.depth + 1 }

/-- Inside one expression less. -/
def shallower (c : Cursor) : Cursor := { c with depth := c.depth - 1 }

end Cursor

/-- What is done with a cursor. -/
inductive Cursor.Step
  /-- The token at an index is asked for. -/
  | look (index : Nat)
  /-- The token at an index is taken. -/
  | take (index : Nat)
  /-- The token before a position is asked for. -/
  | back (position : Nat)
  /-- An expression is entered at an index, with as many open ones then. -/
  | enter (index depth : Nat)
deriving DecidableEq

/-- Where an expression is entered that nests too deep. -/
def Cursor.Step.deep? : Cursor.Step → Option Nat
  | enter index depth => if maxNesting < depth then some index else none
  | _ => none

/-- Where the first expression is entered that nests too deep. -/
def firstDeep (steps : List Cursor.Step) : Option Nat := steps.findSome? Cursor.Step.deep?

/-- How a walk ends. It has no result if it needs more rounds than it was given. -/
structure Walked (α : Type) where
  result : Option (Except ParseError α)
  cursor : Cursor
  steps : List Cursor.Step

/-- The end of a walk, with what was done before it. -/
def Walked.behind {α : Type} (steps : List Cursor.Step) (out : Walked α) : Walked α :=
  { out with steps := steps ++ out.steps }

/-- Something that is done with a cursor. The first error ends it. -/
def Walk (α : Type) : Type := Cursor → Walked α

namespace Walk

variable {α β : Type}

protected def bind (x : Walk α) (f : α → Walk β) : Walk β := fun c =>
  match x c with
  | ⟨some (.ok a), mid, steps⟩ => (f a mid).behind steps
  | ⟨some (.error e), last, steps⟩ => ⟨some (.error e), last, steps⟩
  | ⟨none, last, steps⟩ => ⟨none, last, steps⟩

instance : Monad Walk where
  pure a := fun c => ⟨some (.ok a), c, []⟩
  bind := Walk.bind

def fail (e : ParseError) : Walk α := fun c => ⟨some (.error e), c, []⟩

/-- There are no rounds left. -/
def unfinished : Walk α := fun c => ⟨none, c, []⟩

/-- An error becomes a result. -/
def attempt (x : Walk α) : Walk (Except ParseError α) := fun c =>
  { x c with result := (x c).result.map .ok }

def ofExcept : Except ParseError α → Walk α
  | .ok a => pure a
  | .error e => fail e

/-- Enters an expression, and counts the open ones. -/
def enter : Walk Nat := fun c =>
  ⟨some (.ok (c.depth + 1)), c.deeper, [.enter c.position (c.depth + 1)]⟩

def leave : Walk Unit := fun c => ⟨some (.ok ()), c.shallower, []⟩

end Walk

/-- What reads with a cursor: its row of tokens, whether it has a limit on nesting, and how many
rounds its loops may take. -/
structure Walker where
  tokens : List Token
  limited : Bool
  rounds : Nat

namespace Walker

variable {α : Type} (w : Walker)

/-- The token at an index; behind the row there are only marks of its end. -/
def tokenAt (index : Nat) : Token := nextToken (w.tokens.drop index)

/-! ### Tokens -/

/-- The token at the cursor, or the last one if the cursor is past it. -/
def peek : Walk Token := fun c =>
  ⟨some (.ok (w.tokenAt (min c.position (w.tokens.length - 1)))), c, [.look c.position]⟩

/-- Moves the cursor past the next token, if there is one. -/
def moveOn : Walk Unit := fun c =>
  if c.position < w.tokens.length then ⟨some (.ok ()), c.next, [.take c.position]⟩
  else ⟨some (.ok ()), c, []⟩

def advance : Walk Token := do
  let t ← w.peek
  w.moveOn
  return t

def sees (kind : Token.Kind) : Walk Bool := return (← w.peek).kind = kind

/-- Is the token after the next of this kind? -/
def seesAfter (kind : Token.Kind) : Walk Bool := fun c =>
  ⟨some (.ok (decide ((w.tokenAt (c.position + 1)).kind = kind))), c, [.look (c.position + 1)]⟩

/-- The span of the token that was taken last. -/
def previousSpan : Walk Span := fun c =>
  ⟨some (.ok (match c.position with
    | 0 => .point .first
    | n + 1 => (w.tokenAt n).span)), c, [.back c.position]⟩

def unexpected (expected : Expected) (hint : Option Hint) : Walk α := do
  Walk.fail (.unexpected expected (← w.peek) hint)

def accept (kind : Token.Kind) : Walk Bool := do
  if ← w.sees kind then
    let _ ← w.advance
    return true
  else
    return false

def expect (kind : Token.Kind) : Walk Token := do
  if ← w.sees kind then w.advance else w.unexpected (.token kind) none

def identifier : Walk Identifier := do
  match (← w.peek).kind with
  | .identifier name => return ⟨name, (← w.advance).span⟩
  | _ => w.unexpected .identifier none

/-- A string literal. Its span is read off the token before the cursor, once it is taken. -/
def stringLiteral : Walk (String × Span) := do
  match (← w.peek).kind with
  | .string s =>
    let _ ← w.advance
    return (s, ← w.previousSpan)
  | _ => w.unexpected .stringLiteral none

def skipNewlines : (rounds : Nat) → Walk Unit
  | 0 => Walk.unfinished
  | rounds + 1 => do
    if ← w.sees .newline then
      let _ ← w.advance
      skipNewlines rounds
    else
      return ()

def itemsWithin (item : List α → Walk α) : (rounds : Nat) → List α → Walk (List α)
  | 0, _ => Walk.unfinished
  | rounds + 1, earlier => do
    let x ← item earlier
    if ← w.accept (.symbol .comma) then
      return x :: (← itemsWithin item rounds (x :: earlier))
    else
      return [x]

def commaSeparated (item : List α → Walk α) : Walk (List α) := w.itemsWithin item w.rounds []

/-! ### Expressions -/

def primary : Walk Expr := do
  match (← w.peek).kind with
  | .number x => return .number x (← w.advance).span
  | .keyword .trueKw => return .bool true (← w.advance).span
  | .keyword .falseKw => return .bool false (← w.advance).span
  | .string s => return .string s (← w.advance).span
  | .identifier name => return .identifier name (← w.advance).span
  | _ => w.unexpected .expression none

def arguments (nested : Walk Expr) : Walk (List Expr) := do
  if ← w.sees (.symbol .rparen) then return [] else w.commaSeparated fun _ => nested

def operand (nested : Walk Expr) : Walk Expr := do
  match (← w.peek).kind with
  | .identifier _ =>
    if ← w.seesAfter (.symbol .lparen) then
      let callee ← w.identifier
      let _ ← w.advance
      let args ← w.arguments nested
      let close ← w.expect (.symbol .rparen)
      return .call callee args (callee.span.merge close.span)
    else
      w.primary
  | _ => w.primary

def chain (level : Level) (operand nested : Walk Expr) : Walk Expr := do
  let lhs ← operand
  match Operator.ofKind? (← w.peek).kind with
  | some op =>
    if op.level = level then
      let opToken ← w.advance
      let rhs ← nested
      return .binary level lhs op opToken.span rhs (lhs.span.merge rhs.span)
    else
      return lhs
  | none => return lhs

def factor (nested : Walk Expr) : Walk Expr := w.chain .factor (w.operand nested) nested

def term (nested : Walk Expr) : Walk Expr := w.chain .term (w.factor nested) nested

def equality (nested : Walk Expr) : Walk Expr := w.chain .equality (w.term nested) nested

/-- An expression, which counts as open until it is read or fails. -/
def expression : (levels : Nat) → Walk Expr
  | 0 => Walk.unfinished
  | levels + 1 => do
    let depth ← Walk.enter
    if w.limited ∧ maxNesting < depth then
      let t ← w.peek
      Walk.leave
      Walk.fail (.nestingLimit t.span)
    else
      let result ← (w.equality (expression levels)).attempt
      Walk.leave
      Walk.ofExcept result

/-! ### Statements and functions -/

def statement (expression : Walk Expr) : Walk Stmt := do
  match (← w.peek).kind with
  | .keyword .returnKw =>
    let start ← w.advance
    let value ← expression
    return .result value (start.span.merge value.span)
  | .identifier _ =>
    if ← w.seesAfter (.symbol .colonEq) then
      let name ← w.identifier
      let _ ← w.advance
      let value ← expression
      return .declaration name value (name.span.merge value.span)
    else
      let value ← expression
      return .expression value value.span
  | _ =>
    let value ← expression
    return .expression value value.span

def statementEnd : Walk Unit := do
  if ← w.sees (.symbol .rbrace) then
    return ()
  else
    let _ ← w.expect .newline
    return ()

def statements (expression : Walk Expr) : (rounds : Nat) → Walk (List Stmt)
  | 0 => Walk.unfinished
  | rounds + 1 => do
    w.skipNewlines w.rounds
    if ← w.sees (.symbol .rbrace) then
      return []
    else if ← w.sees .endOfFile then
      w.unexpected (.token (.symbol .rbrace)) (some .closeBody)
    else
      let s ← w.statement expression
      w.statementEnd
      return s :: (← statements expression rounds)

def parameter (function : String) (earlier : List Identifier) : Walk Identifier := do
  let p ← w.identifier
  if earlier.any (·.name = p.name) then Walk.fail (.duplicateParameter p function) else return p

def parameters (function : String) : Walk (List Identifier) := do
  if ← w.sees (.symbol .rparen) then return [] else w.commaSeparated (w.parameter function)

def functionStart : Walk Token := do
  if ← w.sees (.keyword .importKw) then
    w.unexpected (.token (.keyword .funcKw)) (some .importsFirst)
  else
    w.expect (.keyword .funcKw)

def bodyStart : Walk Unit := do
  if ← w.accept .newline then return () else w.unexpected (.token .newline) (some .bodyOnNextLine)

def scriptFunction (expression : Walk Expr) : Walk ScriptFunction := do
  let start ← w.functionStart
  let name ← w.identifier
  let _ ← w.expect (.symbol .lparen)
  let params ← w.parameters name.name
  let _ ← w.expect (.symbol .rparen)
  let _ ← w.expect (.symbol .lbrace)
  w.bodyStart
  let body ← w.statements expression w.rounds
  let close ← w.expect (.symbol .rbrace)
  return ⟨name, params, body, start.span.merge close.span⟩

/-! ### Imports and programs -/

/-- An import, at whose keyword the cursor stands. -/
def importLine : Walk (List Import) := do
  let start ← w.advance
  let _ ← w.expect (.symbol .lbrace)
  let names ← w.commaSeparated fun _ => w.identifier
  let _ ← w.expect (.symbol .rbrace)
  let _ ← w.expect (.keyword .fromKw)
  let (module, stop) ← w.stringLiteral
  return names.map fun name => ⟨name, module, start.span.merge stop⟩

/-- Adds a definition under a name that has none yet. -/
def define (p : Program) (d : Definition) : Walk Program :=
  match p.get? d.name.name with
  | some earlier => Walk.fail (.duplicateFunction d.name earlier.name.span)
  | none => return p.add d

def imports : (rounds : Nat) → Program → Walk Program
  | 0, _ => Walk.unfinished
  | rounds + 1, p => do
    if ← w.sees (.keyword .importKw) then
      let line ← w.importLine
      let p ← line.foldlM (fun p i => define p (.native i)) p
      w.skipNewlines w.rounds
      imports rounds p
    else
      return p

def functions (expression : Walk Expr) : (rounds : Nat) → Program → Walk Program
  | 0, _ => Walk.unfinished
  | rounds + 1, p => do
    if ← w.sees .endOfFile then
      return p
    else
      let f ← w.scriptFunction expression
      let p ← define p (.script f)
      w.skipNewlines w.rounds
      functions expression rounds p

/-- A whole program. -/
def program : Walk Program := do
  w.skipNewlines w.rounds
  let p ← w.imports w.rounds ∅
  w.functions (w.expression w.rounds) w.rounds p

end Walker

end Scriptlet
