import Scriptlet.Run.Interpreter

/-!
# What a function calls

The callees of an expression are the names it calls, wherever in it the calls stand. A function
calls the callees of its statements up to the first that returns a value; what stands behind that
statement is never run.

## Main definitions

* `Expr.callees`, `liveCallees` — the names that expressions and statements call
* `Interpreter.callAt` — how a call is made with so many more nested calls allowed
* `enter` — one call of a script function, given how the calls inside it are made
* `Program.small` — a small script to see the theorems at work

## Main results

* `Interpreter.invoke_succ` — a call within the budget enters the function
-/

namespace Scriptlet

variable {σ : Type}

namespace Expr

mutual

/-- The names called in an expression, in the order in which the calls are made. -/
def callees : Expr → List Identifier
  | binary _ lhs _ _ rhs _ => lhs.callees ++ rhs.callees
  | call callee args _ => calleesAll args ++ [callee]
  | number _ _ | bool _ _ | string _ _ | identifier _ _ => []

/-- The names called in expressions. -/
def calleesAll : List Expr → List Identifier
  | [] => []
  | e :: es => e.callees ++ calleesAll es

end

end Expr

/-- The names called in the statements up to the first `return`. -/
def liveCallees : List Stmt → List Identifier
  | [] => []
  | .declaration _ value _ :: rest | .expression value _ :: rest =>
    value.callees ++ liveCallees rest
  | .result value _ :: _ => value.callees

/-- What a call of a script function does at a depth, given how the calls inside it are made. -/
def enter (call : Caller σ) (depth : Nat) (f : ScriptFunction) (args : List Value) (span : Span) :
    Run σ Value := do
  checkArity f.name.name f.arity args.length span
  Run.tell (.invoke f.name.name depth)
  let scope ← bindAll ∅ (f.params.zip args)
  runBody call f.name.name scope f.body

namespace Interpreter

variable (it : Interpreter σ)

/-- How a name is called, with `budget` more nested calls allowed. -/
def callAt (budget : Nat) : Caller σ := fun callee args span =>
  match it.program.get? callee.name with
  | none => Run.fail (.unknownFunction callee.name callee.span)
  | some (.script f) => it.invoke budget f args span
  | some (.native i) => callNative it.natives i args span

/-- A call within the budget enters the function, one level deeper than the calls around it. -/
theorem invoke_succ (budget : Nat) (f : ScriptFunction) (args : List Value) (span : Span) :
    it.invoke (budget + 1) f args span =
      enter (it.callAt budget) (it.config.maxCallDepth.toNat - budget) f args span :=
  rfl

theorem invoke_zero (f : ScriptFunction) (args : List Value) (span : Span) :
    it.invoke 0 f args span = (do
      checkArity f.name.name f.arity args.length span
      Run.fail (.callDepthExceeded f.name.name it.config.maxCallDepth.toNat span)) :=
  rfl

end Interpreter

/-! ### A small script -/

/-- A registry with a single function. -/
def Registry.single (module function : String) (f : NativeFunction σ) : Registry σ :=
  empty.withModule ((NativeModule.named module).withFunction function f)

/-- A host with a function that gives back what it gets. -/
def Registry.echo : Registry Unit :=
  .single "host" "get" ⟨["v"], fun vs h => (.ok (vs.headD .void), h)⟩

/-- A script that calls on three levels. Its `main` is `return twice("a")`, and `twice(x)` is
`y := get(x)`, then `return y + y`, where `get` is a function of the host. -/
def Program.small : Program :=
  .ofList [("get", .native ⟨named "get", "host", default⟩),
    ("main", .script ⟨named "main", [],
      [.result (.call (named "twice") [.string "a" default] default) default], default⟩),
    ("twice", .script ⟨named "twice", [named "x"],
      [.declaration (named "y") (.call (named "get") [.identifier "x" default] default) default,
        .result (.binary .term (.identifier "y" default) .add default (.identifier "y" default)
          default) default], default⟩)]
where
  named (name : String) : Identifier := ⟨name, default⟩

end Scriptlet
