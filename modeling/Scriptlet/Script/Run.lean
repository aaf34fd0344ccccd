import Scriptlet.Run.Interpreter
import Scriptlet.Script.Source

/-!
# Running scripts

A script is read and then run, and can fail in either step. A script that cannot be read tells no
events and leaves its host alone.
-/

namespace Scriptlet

variable {σ : Type}

/-- Why a script gave no value. -/
inductive ScriptError
  | compile (e : CompileError)
  | runtime (e : RuntimeError)
deriving DecidableEq

namespace ScriptError

/-- The failure of a script told with the line it blames. -/
def diagnostic (e : ScriptError) (source : SourceFile) : Diagnostic :=
  match e with
  | compile e => e.diagnostic source
  | runtime e => e.diagnostic source

/-- The failure of a script in one line: with its place if the script could not be read, and else by
its message alone. -/
def text (e : ScriptError) (source : SourceFile) : String :=
  match e with
  | compile e => (e.diagnostic source).text
  | runtime e => e.message

end ScriptError

/-- How a script ended, with the host as it left it and the events it told. -/
structure ScriptOutcome (σ : Type) where
  result : Except ScriptError Value
  host : σ
  events : List Event

/-- Reads a script and runs its entry point. -/
def runScript (source : SourceFile) (natives : Registry σ) (config : Config) (host : σ) :
    ScriptOutcome σ :=
  match Program.ofText source.text with
  | .error e => ⟨.error (.compile e), host, []⟩
  | .ok program =>
    let o := (Interpreter.mk program natives config).run host
    ⟨o.result.mapError .runtime, o.host, .parsed source.name program.size :: o.events⟩

end Scriptlet
