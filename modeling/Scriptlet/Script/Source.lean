import Scriptlet.Grammar.Program
import Scriptlet.Token.Scan

/-!
# Programs from source text

A source file is scanned into tokens, and these are read as a program. Either step can fail; the
first error is the only one told.
-/

namespace Scriptlet

/-- Why a source file is no program. -/
inductive CompileError
  | scan (e : ScanError)
  | parse (e : ParseError)
deriving DecidableEq

/-- An error of a source file told with the line it blames. -/
def CompileError.diagnostic (e : CompileError) (source : SourceFile) : Diagnostic :=
  match e with
  | scan e => e.diagnostic source
  | parse e => e.diagnostic source

/-- The program of a source text. -/
def Program.ofText (text : String) : Except CompileError Program :=
  match Scriptlet.scan text with
  | .error e => .error (.scan e)
  | .ok tokens =>
    match Program.ofTokens tokens with
    | .error e => .error (.parse e)
    | .ok p => .ok p

end Scriptlet
