import Scriptlet.Native.Registry
import Scriptlet.Program
import Scriptlet.Run.Basic
import Scriptlet.Run.Config
import Scriptlet.Run.Scope

/-!
# Running programs

Evaluation goes from left to right and inward out: the arguments of a call are evaluated before
its function is looked up, and both operands before their operator is applied. A call of a script
function runs its statements in a fresh scope that holds the arguments.

`Expr.eval` and `runBody` are told by `call` how a call is made. `Interpreter.invoke` closes the
circle: it has a budget of nested calls, and what it runs may make calls with a smaller budget
only.
-/

namespace Scriptlet

variable {σ : Type}

/-- How a call with evaluated arguments is made, given the callee and the span of the whole call. -/
abbrev Caller (σ : Type) := Identifier → List Value → Span → Run σ Value

namespace Expr

mutual

/-- The value of an expression in a scope. -/
def eval (call : Caller σ) (scope : Scope) : Expr → Run σ Value
  | .number x _ => return .number x
  | .bool b _ => return .bool b
  | .string s _ => return .string s
  | .identifier name span =>
    match scope.get? name with
    | some value => return value
    | none => Run.fail (.undeclaredVariable name span)
  | .binary _ lhs op opSpan rhs _ => do
    let a ← lhs.eval call scope
    let b ← rhs.eval call scope
    Run.ofExcept (Value.applyAt op a b opSpan)
  | .call callee args span => do
    let values ← evalAll call scope args
    call callee values span

/-- The values of expressions, in order. -/
def evalAll (call : Caller σ) (scope : Scope) : List Expr → Run σ (List Value)
  | [] => return []
  | e :: es => do
    let value ← e.eval call scope
    let values ← evalAll call scope es
    return value :: values

end

end Expr

/-- Binds a variable, which must be new. -/
def bindNew (scope : Scope) (name : Identifier) (value : Value) : Run σ Scope :=
  match scope.declare? name.name value with
  | some scope => return scope
  | none => Run.fail (.duplicateVariable name.name name.span)

/-- Binds parameters to arguments. -/
def bindAll (scope : Scope) : List (Identifier × Value) → Run σ Scope
  | [] => return scope
  | (name, value) :: rest => do
    let scope ← bindNew scope name value
    bindAll scope rest

/-- Runs the statements of a function, up to the first that returns a value. -/
def runBody (call : Caller σ) (function : String) (scope : Scope) : List Stmt → Run σ Value
  | [] => do
    Run.tell (.returnedVoid function)
    return .void
  | .declaration name value _ :: rest => do
    let v ← value.eval call scope
    Run.tell (.declare name.name v)
    let scope ← bindNew scope name v
    runBody call function scope rest
  | .expression value _ :: rest => do
    let _ ← value.eval call scope
    runBody call function scope rest
  | .result value _ :: _ => do
    let v ← value.eval call scope
    Run.tell (.returned function v)
    return v

/-- Fails unless a call has as many arguments as the function has parameters. -/
def checkArity (name : String) (expected actual : Nat) (span : Span) : Run σ Unit :=
  if expected = actual then return () else Run.fail (.arityMismatch name expected actual span)

/-- Calls the function that an import stands for. -/
def callNative (natives : Registry σ) (i : Import) (args : List Value) (span : Span) :
    Run σ Value :=
  match natives.module? i.module with
  | none => Run.fail (.unknownModule i.module i.name.name span)
  | some m =>
    match m.get? i.name.name with
    | none => Run.fail (.unknownNativeFunction i.module i.name.name span)
    | some f => do
      checkArity i.name.name f.arity args.length span
      Run.tell (.nativeCall i.module i.name.name)
      Run.onHost (f.call args) fun message => .native i.module i.name.name message span

/-- A program together with the host it runs on and the settings of its runs. -/
structure Interpreter (σ : Type) where
  program : Program
  natives : Registry σ
  config : Config

namespace Interpreter

/-- Calls a script function, with `budget` more nested calls allowed. -/
def invoke (it : Interpreter σ) : (budget : Nat) → ScriptFunction → List Value → Span → Run σ Value
  | 0, f, args, span => do
    checkArity f.name.name f.arity args.length span
    Run.fail (.callDepthExceeded f.name.name it.config.maxCallDepth.toNat span)
  | budget + 1, f, args, span => do
    checkArity f.name.name f.arity args.length span
    Run.tell (.invoke f.name.name (it.config.maxCallDepth.toNat - budget))
    let scope ← bindAll ∅ (f.params.zip args)
    runBody
      (fun callee values span =>
        match it.program.get? callee.name with
        | none => Run.fail (.unknownFunction callee.name callee.span)
        | some (.script g) => it.invoke budget g values span
        | some (.native i) => callNative it.natives i values span)
      f.name.name scope f.body

/-- Calls any function of the program by its name. -/
def call (it : Interpreter σ) (name : String) (args : List Value) : Run σ Value :=
  match it.program.get? name with
  | none => Run.fail (.missingEntryPoint name)
  | some (.script f) => it.invoke it.config.maxCallDepth.toNat f args f.name.span
  | some (.native i) => callNative it.natives i args i.name.span

/-- Runs the entry point, which must be a script function without parameters. -/
def run (it : Interpreter σ) : Run σ Value :=
  match it.program.get? it.config.entryPoint with
  | none => Run.fail (.missingEntryPoint it.config.entryPoint)
  | some (.script f) =>
    if f.params.isEmpty then it.invoke it.config.maxCallDepth.toNat f [] f.name.span
    else Run.fail (.invalidEntryPoint it.config.entryPoint f.name.span)
  | some (.native i) => Run.fail (.invalidEntryPoint it.config.entryPoint i.name.span)

end Interpreter

end Scriptlet
