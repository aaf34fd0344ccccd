import Scriptlet.Proofs.Program.Spanless
import Scriptlet.Proofs.Run.Callees

/-!
# Runs without spans

Spans play no part in a run. They are only carried along, from the program into the error that a run
may end with. So it makes no difference whether a program is run and the span of the error is
dropped then, or all spans are dropped from the program before it is run: the value, the error, the
events and what happens to the host are the same.

Dropping the spans of errors goes through every step that a run is built from. Therefore one
equation for each of the functions of an interpreter says it all.

## Main definitions

* `RuntimeError.spanless`, `Outcome.spanless`, `Run.spanless` — no span is left in an error
* `Interpreter.spanless` — an interpreter of the program without spans

## Main results

* `Expr.eval_spanless`, `runBody_spanless`, `Interpreter.invoke_spanless` — evaluation does not look
  at spans
* `Interpreter.run_spanless`, `call_spanless` — neither do whole runs
-/

namespace Scriptlet

variable {σ α β : Type}

/-- An error without the place that it blames. -/
def RuntimeError.spanless : RuntimeError → RuntimeError
  | duplicateVariable name _ => duplicateVariable name default
  | undeclaredVariable name _ => undeclaredVariable name default
  | unknownFunction name _ => unknownFunction name default
  | unknownModule module function _ => unknownModule module function default
  | unknownNativeFunction module function _ => unknownNativeFunction module function default
  | arityMismatch name expected actual _ => arityMismatch name expected actual default
  | typeMismatch op lhs rhs _ => typeMismatch op lhs rhs default
  | missingEntryPoint name => missingEntryPoint name
  | invalidEntryPoint name _ => invalidEntryPoint name default
  | native module function message _ => native module function message default
  | callDepthExceeded name limit _ => callDepthExceeded name limit default

/-- How a run ended, without the place that an error blames. -/
def Outcome.spanless (o : Outcome σ α) : Outcome σ α :=
  { o with result := o.result.mapError RuntimeError.spanless }

namespace Run

/-- A run whose errors blame no place. -/
def spanless (m : Run σ α) : Run σ α := fun h => (m h).spanless

@[simp] theorem spanless_pure (a : α) : (pure a : Run σ α).spanless = pure a := rfl

@[simp] theorem spanless_fail (e : RuntimeError) :
    (fail e : Run σ α).spanless = fail e.spanless := rfl

@[simp] theorem spanless_tell (e : Event) : (tell e : Run σ Unit).spanless = tell e := rfl

theorem spanless_bind (m : Run σ α) (f : α → Run σ β) :
    (m >>= f).spanless = m.spanless >>= fun a => (f a).spanless := by
  funext h
  simp only [spanless, bind]
  rcases m h with ⟨_ | a, h', es⟩ <;> rfl

theorem spanless_onHost (action : σ → Except String α × σ) (error : String → RuntimeError) :
    (onHost action error).spanless = onHost action fun message => (error message).spanless := by
  funext h
  simp only [spanless, onHost]
  rcases action h with ⟨_ | a, h'⟩ <;> rfl

end Run

/-! ### Evaluation -/

section

variable {call call' : Caller σ}

/-- Calls of a name that do not look at spans. -/
def Caller.Spanless (call call' : Caller σ) : Prop :=
  ∀ callee args span, (call callee args span).spanless = call' callee.spanless args default

theorem spanless_applyAt (op : Operator) (a b : Value) (span : Span) :
    (Run.ofExcept (Value.applyAt op a b span) : Run σ Value).spanless =
      Run.ofExcept (Value.applyAt op a b default) := by
  rw [Value.applyAt, Value.applyAt]
  cases Value.operate? op a b <;> rfl

namespace Expr

mutual

/-- **The value of an expression does not depend on spans.** -/
theorem eval_spanless (hcall : Caller.Spanless call call') (scope : Scope) :
    ∀ e : Expr, (e.eval call scope).spanless = e.spanless.eval call' scope
  | .number .. | .bool .. | .string .. => rfl
  | .identifier name span => by
    rw [eval, spanless, eval]
    cases scope.get? name <;> rfl
  | .binary _ lhs op opSpan rhs _ => by
    simp only [eval, spanless, Run.spanless_bind, lhs.eval_spanless hcall scope,
      rhs.eval_spanless hcall scope, spanless_applyAt]
  | .call callee args span => by
    simp only [eval, spanless, Run.spanless_bind, evalAll_spanless hcall scope args]
    exact congrArg _ (funext fun values => hcall callee values span)

theorem evalAll_spanless (hcall : Caller.Spanless call call') (scope : Scope) :
    ∀ es : List Expr, (evalAll call scope es).spanless = evalAll call' scope (spanlessAll es)
  | [] => rfl
  | e :: es => by
    simp only [evalAll, spanlessAll, Run.spanless_bind, Run.spanless_pure,
      e.eval_spanless hcall scope, evalAll_spanless hcall scope es]

end

end Expr

theorem bindNew_spanless (scope : Scope) (name : Identifier) (value : Value) :
    (bindNew scope name value : Run σ Scope).spanless = bindNew scope name.spanless value := by
  rw [bindNew, bindNew, Identifier.name_spanless]
  cases scope.declare? name.name value <;> rfl

theorem bindAll_spanless (params : List Identifier) (args : List Value) (scope : Scope) :
    (bindAll scope (params.zip args) : Run σ Scope).spanless =
      bindAll scope ((params.map Identifier.spanless).zip args) := by
  induction params generalizing args scope with
  | nil => rfl
  | cons name params ih =>
    cases args with
    | nil => rfl
    | cons value args =>
      simp only [List.map_cons, List.zip_cons_cons, bindAll, Run.spanless_bind, bindNew_spanless,
        ih]

/-- **What a function body does does not depend on spans.** -/
theorem runBody_spanless (hcall : Caller.Spanless call call') (function : String)
    (body : List Stmt) (scope : Scope) :
    (runBody call function scope body).spanless =
      runBody call' function scope (body.map Stmt.spanless) := by
  induction body generalizing scope with
  | nil => rfl
  | cons stmt rest ih =>
    cases stmt with
    | declaration | expression | result =>
      simp only [List.map_cons, Stmt.spanless, runBody, Run.spanless_bind, Run.spanless_tell,
        Run.spanless_pure, Expr.eval_spanless hcall, bindNew_spanless, ih, Identifier.name_spanless]

theorem checkArity_spanless (name : String) (expected actual : Nat) (span : Span) :
    (checkArity name expected actual span : Run σ Unit).spanless =
      checkArity name expected actual default := by
  rw [checkArity, checkArity]
  split <;> rfl

theorem callNative_spanless (natives : Registry σ) (i : Import) (args : List Value) (span : Span) :
    (callNative natives i args span).spanless = callNative natives i.spanless args default := by
  simp only [callNative, Import.spanless, Identifier.name_spanless]
  cases natives.module? i.module with
  | none => rfl
  | some m =>
    dsimp only
    cases m.get? i.name.name with
    | none => rfl
    | some f =>
      simp only [Run.spanless_bind, checkArity_spanless, Run.spanless_tell, Run.spanless_onHost]
      rfl

theorem enter_spanless (hcall : Caller.Spanless call call') (depth : Nat) (f : ScriptFunction)
    (args : List Value) (span : Span) :
    (enter call depth f args span).spanless = enter call' depth f.spanless args default := by
  simp only [enter, Run.spanless_bind, checkArity_spanless, Run.spanless_tell, bindAll_spanless,
    runBody_spanless hcall, ScriptFunction.arity_spanless, ScriptFunction.name_spanless,
    ScriptFunction.params_spanless, ScriptFunction.body_spanless, Identifier.name_spanless]

end

/-! ### Interpreters -/

namespace Interpreter

variable (it : Interpreter σ)

/-- An interpreter of the program without spans. -/
def spanless : Interpreter σ := { it with program := it.program.spanless }

variable {it}

theorem callAt_spanless {budget : Nat}
    (hinvoke : ∀ f args span, (it.invoke budget f args span).spanless =
      it.spanless.invoke budget f.spanless args default) :
    Caller.Spanless (it.callAt budget) (it.spanless.callAt budget) := by
  intro callee args span
  simp only [callAt, spanless, Program.get?_spanless, Identifier.name_spanless]
  cases it.program.get? callee.name with
  | none => rfl
  | some d =>
    cases d with
    | script f => exact hinvoke f args span
    | native i => exact callNative_spanless it.natives i args span

variable (it)

/-- **A call of a script function does not look at spans.** -/
theorem invoke_spanless (budget : Nat) (f : ScriptFunction) (args : List Value) (span : Span) :
    (it.invoke budget f args span).spanless =
      it.spanless.invoke budget f.spanless args default := by
  induction budget generalizing f args span with
  | zero =>
    simp only [invoke_zero, Run.spanless_bind, checkArity_spanless, Run.spanless_fail,
      ScriptFunction.arity_spanless, ScriptFunction.name_spanless, Identifier.name_spanless]
    rfl
  | succ budget ih =>
    rw [invoke_succ, invoke_succ]
    exact enter_spanless (callAt_spanless ih) _ f args span

/-- **A call from outside does not look at spans.** -/
theorem call_spanless (name : String) (args : List Value) :
    (it.call name args).spanless = it.spanless.call name args := by
  simp only [call, spanless, Program.get?_spanless]
  cases it.program.get? name with
  | none => rfl
  | some d =>
    cases d with
    | script f => exact it.invoke_spanless it.config.maxCallDepth.toNat f args f.name.span
    | native i => exact callNative_spanless it.natives i args i.name.span

/-- **A run does not look at spans.** -/
theorem run_spanless : it.run.spanless = it.spanless.run := by
  simp only [run, spanless, Program.get?_spanless]
  cases it.program.get? it.config.entryPoint with
  | none => rfl
  | some d =>
    cases d with
    | script f =>
      simp only [Option.map_some, Definition.spanless, ScriptFunction.spanless, List.isEmpty_map]
      split
      · exact it.invoke_spanless it.config.maxCallDepth.toNat f [] f.name.span
      · rfl
    | native i => rfl

/-- **Programs that are the same without spans run alike** on any host and under any settings: with
the same value or the same error up to its span, the same events, and the same effect on the
host. -/
theorem run_spanless_eq {p p' : Program} (h : p.spanless = p'.spanless) (natives : Registry σ)
    (config : Config) :
    (run ⟨p, natives, config⟩).spanless = (run ⟨p', natives, config⟩).spanless := by
  rw [run_spanless, run_spanless, spanless, spanless, h]

theorem call_spanless_eq {p p' : Program} (h : p.spanless = p'.spanless) (natives : Registry σ)
    (config : Config) (name : String) (args : List Value) :
    (call ⟨p, natives, config⟩ name args).spanless =
      (call ⟨p', natives, config⟩ name args).spanless := by
  rw [call_spanless, call_spanless, spanless, spanless, h]

end Interpreter

end Scriptlet
