import Scriptlet.Proofs.Run.Callees

/-!
# One statement after the other

`runBody` runs the statements of a function to their end. To say what holds when a statement is
about to be run, a call has to be stopped there. `Stmt.step` is what a single statement does,
`runTo` runs some statements and gives the scope that they leave behind, and
`Interpreter.invokeTo` stops a call in front of its `i`-th statement. The call itself is `invokeTo`,
followed by the statements that are left: this is `Interpreter.invoke_eq_invokeTo`, and it holds for
every `i`.

## Main definitions

* `Step` — where a statement leads
* `Stmt.step`, `runTo` — what one statement does, and some of them
* `Interpreter.invokeTo` — a call up to one of its statements

## Main results

* `runBody_append` — a body runs in two parts
* `Interpreter.invoke_eq_invokeTo` — a call goes on from any of its statements
-/

namespace Scriptlet

variable {σ α : Type}

/-- Where a statement leads. -/
inductive Step
  /-- The next statement is run in a scope. -/
  | next (scope : Scope)
  /-- The call ends with a value. -/
  | leave (value : Value)

namespace Step

/-- Goes on in the scope of the next statement, unless the call has ended. -/
def andThen (ended : Value → α) (rest : Scope → Run σ α) : Step → Run σ α
  | next scope => rest scope
  | leave v => return ended v

/-- Of three parts, the last two may be run as one. -/
theorem andThen_bind_andThen (f : Scope → Run σ Step) (ended : Value → α) (rest : Scope → Run σ α)
    (x : Step) :
    (x.andThen leave f >>= andThen ended rest) =
      x.andThen ended fun t => f t >>= andThen ended rest := by
  cases x with
  | next t => rfl
  | leave v => exact pure_bind _ _

theorem andThen_leave_next (x : Step) : (x.andThen leave fun t => return next t) =
    (return x : Run σ Step) := by
  cases x <;> rfl

end Step

/-- What a statement does in a scope. -/
def Stmt.step (call : Caller σ) (function : String) (scope : Scope) : Stmt → Run σ Step
  | declaration name value _ => do
    let v ← value.eval call scope
    Run.tell (.declare name.name v)
    let scope ← bindNew scope name v
    return .next scope
  | expression value _ => do
    let _ ← value.eval call scope
    return .next scope
  | result value _ => do
    let v ← value.eval call scope
    Run.tell (.returned function v)
    return .leave v

/-- Runs some statements of a function, one after the other. -/
def runTo (call : Caller σ) (function : String) (scope : Scope) : List Stmt → Run σ Step
  | [] => return .next scope
  | stmt :: rest =>
    stmt.step call function scope >>= Step.andThen .leave fun t => runTo call function t rest

section

variable (call : Caller σ) (function : String)

theorem runBody_cons (s : Scope) (stmt : Stmt) (rest : List Stmt) :
    runBody call function s (stmt :: rest) =
      stmt.step call function s >>= Step.andThen id fun t => runBody call function t rest := by
  cases stmt <;> simp only [runBody, Stmt.step, bind_assoc, pure_bind, Step.andThen, id]

/-- **A body runs in two parts**: the second one goes on in the scope that the first one leaves
behind, unless that one has ended the call. -/
theorem runBody_append (s : Scope) (done rest : List Stmt) :
    runBody call function s (done ++ rest) =
      runTo call function s done >>= Step.andThen id fun t => runBody call function t rest := by
  induction done generalizing s with
  | nil => exact (pure_bind _ _).symm
  | cons stmt done ih =>
    rw [List.cons_append, runBody_cons, runTo, bind_assoc]
    refine congrArg _ (funext fun x => ?_)
    rw [Step.andThen_bind_andThen]
    exact congrArg (Step.andThen id · x) (funext ih)

theorem runTo_concat (s : Scope) (done : List Stmt) (stmt : Stmt) :
    runTo call function s (done ++ [stmt]) =
      runTo call function s done >>= Step.andThen .leave fun t => stmt.step call function t := by
  induction done generalizing s with
  | nil =>
    have hstop : (Step.andThen .leave fun t => runTo call function t []) =
        (pure : Step → Run σ Step) := funext Step.andThen_leave_next
    rw [List.nil_append, runTo, runTo, hstop, bind_pure]
    exact (pure_bind _ _).symm
  | cons stmt done ih =>
    rw [List.cons_append, runTo, runTo, bind_assoc]
    refine congrArg _ (funext fun x => ?_)
    rw [Step.andThen_bind_andThen]
    exact congrArg (Step.andThen .leave · x) (funext ih)

end

namespace Interpreter

variable (it : Interpreter σ)

/-- A call of a script function up to its `i`-th statement, counted from zero, with `budget` more
nested calls allowed inside it. -/
def invokeTo (budget : Nat) (f : ScriptFunction) (args : List Value) (span : Span) (i : Nat) :
    Run σ Step := do
  checkArity f.name.name f.arity args.length span
  Run.tell (.invoke f.name.name (it.config.maxCallDepth.toNat - budget))
  let scope ← bindAll ∅ (f.params.zip args)
  runTo (it.callAt budget) f.name.name scope (f.body.take i)

/-- **A call goes on from any of its statements**, in the scope that it has reached there. -/
theorem invoke_eq_invokeTo (budget : Nat) (f : ScriptFunction) (args : List Value) (span : Span)
    (i : Nat) :
    it.invoke (budget + 1) f args span =
      it.invokeTo budget f args span i >>= Step.andThen id fun t =>
        runBody (it.callAt budget) f.name.name t (f.body.drop i) := by
  rw [invoke_succ, enter, invokeTo]
  simp only [bind_assoc, ← runBody_append, List.take_append_drop]

/-- To reach the next statement, a call runs one more. -/
theorem invokeTo_succ {f : ScriptFunction} {i : Nat} {stmt : Stmt} (h : f.body[i]? = some stmt)
    (budget : Nat) (args : List Value) (span : Span) :
    it.invokeTo budget f args span (i + 1) =
      it.invokeTo budget f args span i >>= Step.andThen .leave fun t =>
        stmt.step (it.callAt budget) f.name.name t := by
  have htake : f.body.take (i + 1) = f.body.take i ++ [stmt] := by
    rw [List.take_add_one, h, Option.toList_some]
  simp only [invokeTo, htake, runTo_concat, bind_assoc]

/-- Behind the last statement there is no further one to run. -/
theorem invokeTo_succ_of_none {f : ScriptFunction} {i : Nat} (h : f.body[i]? = none) (budget : Nat)
    (args : List Value) (span : Span) :
    it.invokeTo budget f args span (i + 1) = it.invokeTo budget f args span i := by
  have htake : f.body.take (i + 1) = f.body.take i := by
    rw [List.take_add_one, h, Option.toList_none, List.append_nil]
  rw [invokeTo, htake, invokeTo]

end Interpreter

end Scriptlet
