import Scriptlet.Grammar.Expression
import Scriptlet.Program

/-!
# Reading programs

A program is a row of imports followed by a row of functions, with any number of line ends around
each. A function body starts on the line after its opening brace, and every statement in it ends
with a line end or the closing brace.

Each round of the loops below takes at least one token, so the number of tokens left bounds their
number; a token that marks the end is never taken.
-/

namespace Scriptlet

namespace Reader

/-- One statement, up to its end. -/
def statement (expression : Reader Expr) : Reader Stmt := do
  match (← peek).kind with
  | .keyword .returnKw =>
    let start ← advance
    let value ← expression
    return .result value (start.span.merge value.span)
  | .identifier _ =>
    if ← seesAfter (.symbol .colonEq) then
      let name ← identifier
      let _ ← advance
      let value ← expression
      return .declaration name value (name.span.merge value.span)
    else
      let value ← expression
      return .expression value value.span
  | _ =>
    let value ← expression
    return .expression value value.span

/-- The end of a statement: a line end, which is taken, or the closing brace, which stays. -/
def statementEnd : Reader Unit := do
  if ← sees (.symbol .rbrace) then
    return ()
  else
    let _ ← expect .newline
    return ()

/-- The statements up to the closing brace of a function, in at most `rounds` rounds. -/
def statements (expression : Reader Expr) : (rounds : Nat) → Reader (List Stmt)
  | 0 => return []
  | rounds + 1 => do
    skipNewlines
    if ← sees (.symbol .rbrace) then
      return []
    else if ← sees .endOfFile then
      unexpected (.token (.symbol .rbrace)) (some .closeBody)
    else
      let s ← statement expression
      statementEnd
      return s :: (← statements expression rounds)

/-- A parameter, which must differ from the earlier ones. -/
def parameter (function : String) (earlier : List Identifier) : Reader Identifier := do
  let p ← identifier
  if earlier.any (·.name = p.name) then throw (.duplicateParameter p function) else return p

/-- The parameters of a function, up to the closing parenthesis. -/
def parameters (function : String) : Reader (List Identifier) := do
  if ← sees (.symbol .rparen) then return [] else commaSeparated (parameter function)

/-- The keyword that starts a function. -/
def functionStart : Reader Token := do
  if ← sees (.keyword .importKw) then
    unexpected (.token (.keyword .funcKw)) (some .importsFirst)
  else
    expect (.keyword .funcKw)

/-- The line end that has to follow the opening brace of a function. -/
def bodyStart : Reader Unit := do
  if ← accept .newline then return () else unexpected (.token .newline) (some .bodyOnNextLine)

/-- A function of the script: `func name(a, b) {`, its statements on lines of their own, and the
closing brace. -/
def scriptFunction (expression : Reader Expr) : Reader ScriptFunction := do
  let start ← functionStart
  let name ← identifier
  let _ ← expect (.symbol .lparen)
  let params ← parameters name.name
  let _ ← expect (.symbol .rparen)
  let _ ← expect (.symbol .lbrace)
  bodyStart
  let body ← statements expression (← tokensLeft)
  let close ← expect (.symbol .rbrace)
  return ⟨name, params, body, start.span.merge close.span⟩

/-- An import of one or more names from a module. They all have the span of the whole line. -/
def importLine : Reader (List Import) := do
  let start ← expect (.keyword .importKw)
  let _ ← expect (.symbol .lbrace)
  let names ← commaSeparated fun _ => identifier
  let _ ← expect (.symbol .rbrace)
  let _ ← expect (.keyword .fromKw)
  let (module, stop) ← stringLiteral
  return names.map fun name => ⟨name, module, start.span.merge stop⟩

/-- Adds a definition under a name that has none yet. -/
def define (p : Program) (d : Definition) : Reader Program :=
  match p.get? d.name.name with
  | some earlier => throw (.duplicateFunction d.name earlier.name.span)
  | none => return p.add d

/-- The imports at the top of a program, in at most `rounds` rounds. -/
def imports : (rounds : Nat) → Program → Reader Program
  | 0, p => return p
  | rounds + 1, p => do
    if ← sees (.keyword .importKw) then
      let line ← importLine
      let p ← line.foldlM (fun p i => define p (.native i)) p
      skipNewlines
      imports rounds p
    else
      return p

/-- The functions up to the end of the file, in at most `rounds` rounds. -/
def functions (expression : Reader Expr) : (rounds : Nat) → Program → Reader Program
  | 0, p => return p
  | rounds + 1, p => do
    if ← sees .endOfFile then
      return p
    else
      let f ← scriptFunction expression
      let p ← define p (.script f)
      skipNewlines
      functions expression rounds p

/-- A whole program. -/
def program (expression : Reader Expr) : Reader Program := do
  skipNewlines
  let p ← imports (← tokensLeft) ∅
  functions expression (← tokensLeft) p

end Reader

namespace Program

/-- The program of a row of tokens. What follows the first mark of the end is not looked at. -/
def ofTokens (ts : List Token) : Except ParseError Program :=
  (Reader.program (.expression maxNesting)).run' (withEnd ts)

end Program

end Scriptlet
