import Mathlib.Data.Prod.Lex
import Scriptlet.Proofs.Grammar.Phrase
import Scriptlet.Proofs.Run.Callees

/-!
# The rules of evaluation

Evaluation as a set of rules, one for each way in which a piece of work can go. A rule says what an
outcome follows from, and nothing bounds how often rules are applied: recursion in a program shows
only as longer and longer derivations. Depths are machine words here, and are counted from the
outside in, by an addition that could overflow.

What has to be done for a piece of work is always smaller: it is deeper in the nest of calls, or as
deep and a part of the text. So no work goes on for ever, every work has exactly one outcome by the
rules, and this is the one that the interpreter gives.

## Main definitions

* `Job` — a piece of work of the interpreter
* `Interpreter.Yields` — the rules
* `Interpreter.Needs` — what is done in the course of what
* `Interpreter.perform` — a piece of work, done by the interpreter

## Main results

* `Interpreter.needs_wellFounded` — no work leads to work without end
* `Interpreter.exists_yields` — every work has an outcome by the rules
* `Interpreter.yields_iff` — this is the outcome that the interpreter gives it
-/

namespace Scriptlet

variable {σ : Type}

/-- A piece of work of the interpreter. The depth is the number of calls around it. -/
inductive Job
  | expression (depth : UInt64) (scope : Scope) (e : Expr)
  | arguments (depth : UInt64) (scope : Scope) (es : List Expr)
  | statements (depth : UInt64) (function : String) (scope : Scope) (body : List Stmt)
  | invocation (depth : UInt64) (f : ScriptFunction) (args : List Value) (span : Span)
  /-- A call from outside, by name. -/
  | call (name : String) (args : List Value)
  /-- A run of the entry point. -/
  | entry

/-- What a piece of work gives if it succeeds. -/
@[reducible]
def Job.Result : Job → Type
  | arguments .. => List Value
  | _ => Value

namespace Run

variable {α β : Type}

theorem tell_bind (e : Event) (f : Unit → Run σ β) (h : σ) :
    (tell e >>= f) h = ⟨(f () h).result, (f () h).host, e :: (f () h).events⟩ :=
  rfl

theorem bind_ofExcept (m : Run σ α) (f : α → Except RuntimeError β) (h : σ) :
    (m >>= fun a => ofExcept (f a)) h = ⟨(m h).result.bind f, (m h).host, (m h).events⟩ := by
  rcases ho : m h with ⟨e | a, h₁, es⟩
  · exact bind_of_error _ ho
  · rw [bind_of_ok _ ho, ofExcept, List.append_nil]
    rfl

theorem bind_pure_apply (m : Run σ α) (f : α → β) (h : σ) :
    (m >>= fun a => pure (f a)) h = ⟨(m h).result.map f, (m h).host, (m h).events⟩ :=
  m.bind_ofExcept (fun a => .ok (f a)) h

end Run

namespace Interpreter

variable (it : Interpreter σ)

/-- The rules: which outcomes a piece of work can have on a host. -/
inductive Yields : (j : Job) → σ → Outcome σ j.Result → Prop
  | number {d s x span h} : Yields (.expression d s (.number x span)) h ⟨.ok (.number x), h, []⟩
  | bool {d s b span h} : Yields (.expression d s (.bool b span)) h ⟨.ok (.bool b), h, []⟩
  | string {d s x span h} : Yields (.expression d s (.string x span)) h ⟨.ok (.string x), h, []⟩
  | identifier {d s x span h v} (hx : s.get? x = some v) :
      Yields (.expression d s (.identifier x span)) h ⟨.ok v, h, []⟩
  | undeclared {d s x span h} (hx : s.get? x = none) :
      Yields (.expression d s (.identifier x span)) h ⟨.error (.undeclaredVariable x span), h, []⟩
  | binary_fails {d s level lhs op opSpan rhs span h h₁ e es}
      (hl : Yields (.expression d s lhs) h ⟨.error e, h₁, es⟩) :
      Yields (.expression d s (.binary level lhs op opSpan rhs span)) h ⟨.error e, h₁, es⟩
  | binary {d s level lhs op opSpan rhs span h h₁ a es} {o : Outcome σ Value}
      (hl : Yields (.expression d s lhs) h ⟨.ok a, h₁, es⟩)
      (hr : Yields (.expression d s rhs) h₁ o) :
      Yields (.expression d s (.binary level lhs op opSpan rhs span)) h
        ⟨o.result.bind fun b => Value.applyAt op a b opSpan, o.host, es ++ o.events⟩
  | call_fails {d s callee args span h h₁ e es}
      (ha : Yields (.arguments d s args) h ⟨.error e, h₁, es⟩) :
      Yields (.expression d s (.call callee args span)) h ⟨.error e, h₁, es⟩
  | call_unknown {d s callee args span h h₁ vs es}
      (ha : Yields (.arguments d s args) h ⟨.ok vs, h₁, es⟩)
      (hd : it.program.get? callee.name = none) :
      Yields (.expression d s (.call callee args span)) h
        ⟨.error (.unknownFunction callee.name callee.span), h₁, es⟩
  | call_native {d s callee args span h h₁ vs es i}
      (ha : Yields (.arguments d s args) h ⟨.ok vs, h₁, es⟩)
      (hd : it.program.get? callee.name = some (.native i)) {o : Outcome σ Value}
      (hn : callNative it.natives i vs span h₁ = o) :
      Yields (.expression d s (.call callee args span)) h ⟨o.result, o.host, es ++ o.events⟩
  | call_script {d s callee args span h h₁ vs es f}
      (ha : Yields (.arguments d s args) h ⟨.ok vs, h₁, es⟩)
      (hd : it.program.get? callee.name = some (.script f)) {o : Outcome σ Value}
      (hi : Yields (.invocation d f vs span) h₁ o) :
      Yields (.expression d s (.call callee args span)) h ⟨o.result, o.host, es ++ o.events⟩
  | arguments_nil {d s h} : Yields (.arguments d s []) h ⟨.ok [], h, []⟩
  | arguments_fails {d s e es h h₁ err evs}
      (he : Yields (.expression d s e) h ⟨.error err, h₁, evs⟩) :
      Yields (.arguments d s (e :: es)) h ⟨.error err, h₁, evs⟩
  | arguments {d s e es h h₁ v evs} {o : Outcome σ (List Value)}
      (he : Yields (.expression d s e) h ⟨.ok v, h₁, evs⟩)
      (hes : Yields (.arguments d s es) h₁ o) :
      Yields (.arguments d s (e :: es)) h ⟨o.result.map (v :: ·), o.host, evs ++ o.events⟩
  | statements_nil {d function s h} :
      Yields (.statements d function s []) h ⟨.ok .void, h, [.returnedVoid function]⟩
  | statement_fails {d function s stmt rest h h₁ e es}
      (hv : Yields (.expression d s stmt.value) h ⟨.error e, h₁, es⟩) :
      Yields (.statements d function s (stmt :: rest)) h ⟨.error e, h₁, es⟩
  | duplicate {d function s name value span rest h h₁ v es}
      (hv : Yields (.expression d s value) h ⟨.ok v, h₁, es⟩)
      (hs : s.declare? name.name v = none) :
      Yields (.statements d function s (.declaration name value span :: rest)) h
        ⟨.error (.duplicateVariable name.name name.span), h₁, es ++ [.declare name.name v]⟩
  | declaration {d function s t name value span rest h h₁ v es} {o : Outcome σ Value}
      (hv : Yields (.expression d s value) h ⟨.ok v, h₁, es⟩)
      (hs : s.declare? name.name v = some t) (hr : Yields (.statements d function t rest) h₁ o) :
      Yields (.statements d function s (.declaration name value span :: rest)) h
        ⟨o.result, o.host, es ++ .declare name.name v :: o.events⟩
  | expression {d function s value span rest h h₁ v es} {o : Outcome σ Value}
      (hv : Yields (.expression d s value) h ⟨.ok v, h₁, es⟩)
      (hr : Yields (.statements d function s rest) h₁ o) :
      Yields (.statements d function s (.expression value span :: rest)) h
        ⟨o.result, o.host, es ++ o.events⟩
  | result {d function s value span rest h h₁ v es}
      (hv : Yields (.expression d s value) h ⟨.ok v, h₁, es⟩) :
      Yields (.statements d function s (.result value span :: rest)) h
        ⟨.ok v, h₁, es ++ [.returned function v]⟩
  | arity {d f args span h} (hne : f.arity ≠ args.length) :
      Yields (.invocation d f args span) h
        ⟨.error (.arityMismatch f.name.name f.arity args.length span), h, []⟩
  | limit {d f args span h} (ha : f.arity = args.length) (hd : it.config.maxCallDepth ≤ d) :
      Yields (.invocation d f args span) h
        ⟨.error (.callDepthExceeded f.name.name it.config.maxCallDepth.toNat span), h, []⟩
  | parameter {d f args span h e} (ha : f.arity = args.length) (hd : d < it.config.maxCallDepth)
      (hb : bindAll ∅ (f.params.zip args) h = ⟨.error e, h, []⟩) :
      Yields (.invocation d f args span) h ⟨.error e, h, [.invoke f.name.name (d + 1).toNat]⟩
  | invocation {d f args span h s} {o : Outcome σ Value} (ha : f.arity = args.length)
      (hd : d < it.config.maxCallDepth) (hb : bindAll ∅ (f.params.zip args) h = ⟨.ok s, h, []⟩)
      (hs : Yields (.statements (d + 1) f.name.name s f.body) h o) :
      Yields (.invocation d f args span) h
        ⟨o.result, o.host, .invoke f.name.name (d + 1).toNat :: o.events⟩
  | missing {name args h} (hd : it.program.get? name = none) :
      Yields (.call name args) h ⟨.error (.missingEntryPoint name), h, []⟩
  | native {name args h i} {o : Outcome σ Value} (hd : it.program.get? name = some (.native i))
      (hn : callNative it.natives i args i.name.span h = o) : Yields (.call name args) h o
  | script {name args h f} {o : Outcome σ Value} (hd : it.program.get? name = some (.script f))
      (hi : Yields (.invocation 0 f args f.name.span) h o) : Yields (.call name args) h o
  | entry_missing {h} (hd : it.program.get? it.config.entryPoint = none) :
      Yields .entry h ⟨.error (.missingEntryPoint it.config.entryPoint), h, []⟩
  | entry_native {h i} (hd : it.program.get? it.config.entryPoint = some (.native i)) :
      Yields .entry h ⟨.error (.invalidEntryPoint it.config.entryPoint i.name.span), h, []⟩
  | entry_invalid {h f} (hd : it.program.get? it.config.entryPoint = some (.script f))
      (hp : f.params ≠ []) :
      Yields .entry h ⟨.error (.invalidEntryPoint it.config.entryPoint f.name.span), h, []⟩
  | entry {h f} {o : Outcome σ Value} (hd : it.program.get? it.config.entryPoint = some (.script f))
      (hp : f.params = []) (hi : Yields (.invocation 0 f [] f.name.span) h o) : Yields .entry h o

/-! ### Work gets smaller -/

/-- What is done in the course of what, whatever values come up on the way. -/
inductive Needs : Job → Job → Prop
  | lhs {d s level lhs op opSpan rhs span} :
      Needs (.expression d s lhs) (.expression d s (.binary level lhs op opSpan rhs span))
  | rhs {d s level lhs op opSpan rhs span} :
      Needs (.expression d s rhs) (.expression d s (.binary level lhs op opSpan rhs span))
  | arguments {d s callee args span} :
      Needs (.arguments d s args) (.expression d s (.call callee args span))
  | callee {d s callee args span f vs} (hd : it.program.get? callee.name = some (.script f)) :
      Needs (.invocation d f vs span) (.expression d s (.call callee args span))
  | head {d s e es} : Needs (.expression d s e) (.arguments d s (e :: es))
  | tail {d s e es} : Needs (.arguments d s es) (.arguments d s (e :: es))
  | value {d function s stmt rest} :
      Needs (.expression d s stmt.value) (.statements d function s (stmt :: rest))
  | next {d function s t stmt rest} :
      Needs (.statements d function t rest) (.statements d function s (stmt :: rest))
  | body {d f args span s} (hd : d < it.config.maxCallDepth) :
      Needs (.statements (d + 1) f.name.name s f.body) (.invocation d f args span)
  | call {name args f span} (hd : it.program.get? name = some (.script f)) :
      Needs (.invocation 0 f args span) (.call name args)
  | entry {f span} (hd : it.program.get? it.config.entryPoint = some (.script f)) :
      Needs (.invocation 0 f [] span) .entry

/-- How many calls may still be nested at a depth. -/
def left (depth : UInt64) : Nat := it.config.maxCallDepth.toNat - depth.toNat

/-- The levels that are left for a piece of work, and how much text it has on its own level. -/
noncomputable def size : Job → Nat × Nat
  | .expression d _ e => (it.left d, sizeOf e)
  | .arguments d _ es => (it.left d, sizeOf es)
  | .statements d _ _ body => (it.left d, sizeOf body)
  | .invocation d .. => (it.left d, 0)
  | .call .. | .entry => (it.left 0, 1)

/-- Counting a call within a limit does not overflow. -/
theorem toNat_succ_of_lt {d limit : UInt64} (h : d < limit) : (d + 1).toNat = d.toNat + 1 := by
  have hd := UInt64.lt_iff_toNat_lt.1 h
  have hlimit := limit.toNat_lt
  rw [UInt64.toNat_add]
  exact Nat.mod_eq_of_lt (show d.toNat + 1 < 2 ^ 64 by omega)

variable {it}

theorem left_of_lt {d : UInt64} (h : d < it.config.maxCallDepth) :
    it.left d = it.left (d + 1) + 1 := by
  have hsucc := toNat_succ_of_lt h
  have hlt := UInt64.lt_iff_toNat_lt.1 h
  rw [left, left]
  omega

theorem left_of_le {d : UInt64} (h : it.config.maxCallDepth ≤ d) : it.left d = 0 :=
  Nat.sub_eq_zero_of_le (UInt64.le_iff_toNat_le.1 h)

/-- What a piece of work needs is deeper in the nest of calls, or as deep and less text. -/
theorem Needs.size_lt {j k : Job} (h : it.Needs j k) :
    Prod.Lex (· < ·) (· < ·) (it.size j) (it.size k) := by
  cases h with
  | lhs | rhs | arguments | callee | head | tail | next =>
    refine .right _ ?_
    simp only [Expr.binary.sizeOf_spec, Expr.call.sizeOf_spec, List.cons.sizeOf_spec]
    omega
  | @value _ _ _ stmt _ =>
    refine .right _ ?_
    cases stmt <;> simp [Stmt.value] <;> omega
  | body hd =>
    refine .left _ _ ?_
    rw [left_of_lt hd]
    exact Nat.lt_succ_self _
  | call | entry =>
    exact .right _ Nat.one_pos

variable (it)

/-- **No work leads to work without end.** -/
theorem needs_wellFounded : WellFounded it.Needs :=
  Subrelation.wf Needs.size_lt (InvImage.wf it.size (WellFounded.prod_lex Nat.lt_wfRel.wf
    Nat.lt_wfRel.wf))

/-! ### Every work has an outcome -/

/-- Binding parameters leaves the host alone and tells nothing. -/
theorem bindAll_apply (scope : Scope) (bindings : List (Identifier × Value)) :
    ∃ r, ∀ h : σ, bindAll scope bindings h = ⟨r, h, []⟩ := by
  induction bindings generalizing scope with
  | nil => exact ⟨.ok scope, fun _ => rfl⟩
  | cons binding rest ih =>
    obtain ⟨name, value⟩ := binding
    cases hs : scope.declare? name.name value with
    | none =>
      refine ⟨.error (.duplicateVariable name.name name.span), fun h => ?_⟩
      rw [bindAll, bindNew, hs]
      rfl
    | some t =>
      obtain ⟨r, hr⟩ := ih t
      refine ⟨r, fun h => ?_⟩
      rw [bindAll, bindNew, hs, pure_bind, hr]

section

variable {it}

/-- All that a piece of work needs has outcomes. -/
def Ready (it : Interpreter σ) (j : Job) : Prop := ∀ k, it.Needs k j → ∀ h, ∃ o, it.Yields k h o

variable {d : UInt64} {s : Scope}

theorem exists_yields_expression {e : Expr} (ready : it.Ready (.expression d s e)) (h : σ) :
    ∃ o, it.Yields (.expression d s e) h o := by
  cases e with
  | number x span => exact ⟨_, .number⟩
  | bool b span => exact ⟨_, .bool⟩
  | string x span => exact ⟨_, .string⟩
  | identifier x span =>
    cases hx : s.get? x with
    | none => exact ⟨_, .undeclared hx⟩
    | some v => exact ⟨_, .identifier hx⟩
  | binary level lhs op opSpan rhs span =>
    obtain ⟨⟨e | a, h₁, es⟩, hl⟩ := ready _ .lhs h
    · exact ⟨_, .binary_fails hl⟩
    · obtain ⟨o, hr⟩ := ready _ .rhs h₁
      exact ⟨_, .binary hl hr⟩
  | call callee args span =>
    obtain ⟨⟨e | vs, h₁, es⟩, ha⟩ := ready _ .arguments h
    · exact ⟨_, .call_fails ha⟩
    · rcases hd : it.program.get? callee.name with _ | f | i
      · exact ⟨_, .call_unknown ha hd⟩
      · obtain ⟨o, hi⟩ := ready _ (.callee hd) h₁
        exact ⟨_, .call_script ha hd hi⟩
      · exact ⟨_, .call_native ha hd rfl⟩

theorem exists_yields_arguments {es : List Expr} (ready : it.Ready (.arguments d s es)) (h : σ) :
    ∃ o, it.Yields (.arguments d s es) h o := by
  cases es with
  | nil => exact ⟨_, .arguments_nil⟩
  | cons e es =>
    obtain ⟨⟨err | v, h₁, evs⟩, he⟩ := ready _ .head h
    · exact ⟨_, .arguments_fails he⟩
    · obtain ⟨o, hes⟩ := ready _ .tail h₁
      exact ⟨_, .arguments he hes⟩

theorem exists_yields_statements {function : String} {body : List Stmt}
    (ready : it.Ready (.statements d function s body)) (h : σ) :
    ∃ o, it.Yields (.statements d function s body) h o := by
  cases body with
  | nil => exact ⟨_, .statements_nil⟩
  | cons stmt rest =>
    obtain ⟨⟨e | v, h₁, es⟩, hv⟩ := ready _ .value h
    · exact ⟨_, .statement_fails hv⟩
    · cases stmt with
      | declaration name value span =>
        cases hs : s.declare? name.name v with
        | none => exact ⟨_, .duplicate hv hs⟩
        | some t =>
          obtain ⟨o, hr⟩ := ready _ (.next (t := t)) h₁
          exact ⟨_, .declaration hv hs hr⟩
      | expression value span =>
        obtain ⟨o, hr⟩ := ready _ (.next (t := s)) h₁
        exact ⟨_, .expression hv hr⟩
      | result value span => exact ⟨_, .result hv⟩

theorem exists_yields_invocation {f : ScriptFunction} {args : List Value} {span : Span}
    (ready : it.Ready (.invocation d f args span)) (h : σ) :
    ∃ o, it.Yields (.invocation d f args span) h o := by
  by_cases ha : f.arity = args.length
  · by_cases hd : d < it.config.maxCallDepth
    · obtain ⟨r, hr⟩ := bindAll_apply (σ := σ) ∅ (f.params.zip args)
      cases r with
      | error e => exact ⟨_, .parameter ha hd (hr h)⟩
      | ok s =>
        obtain ⟨o, hs⟩ := ready _ (.body (s := s) hd) h
        exact ⟨_, .invocation ha hd (hr h) hs⟩
    · exact ⟨_, .limit ha (UInt64.not_lt.1 hd)⟩
  · exact ⟨_, .arity ha⟩

theorem exists_yields_call {name : String} {args : List Value} (ready : it.Ready (.call name args))
    (h : σ) : ∃ o, it.Yields (.call name args) h o := by
  rcases hd : it.program.get? name with _ | f | i
  · exact ⟨_, .missing hd⟩
  · obtain ⟨o, hi⟩ := ready _ (.call hd) h
    exact ⟨_, .script hd hi⟩
  · exact ⟨_, .native hd rfl⟩

theorem exists_yields_entry (ready : it.Ready .entry) (h : σ) : ∃ o, it.Yields .entry h o := by
  rcases hd : it.program.get? it.config.entryPoint with _ | f | i
  · exact ⟨_, .entry_missing hd⟩
  · by_cases hp : f.params = []
    · obtain ⟨o, hi⟩ := ready _ (.entry hd) h
      exact ⟨_, .entry hd hp hi⟩
    · exact ⟨_, .entry_invalid hd hp⟩
  · exact ⟨_, .entry_native hd⟩

end

/-- **Every work has an outcome by the rules**, on every host. The induction is on what work needs:
there is no other bound on how often rules are applied. -/
theorem exists_yields (j : Job) : ∀ h, ∃ o, it.Yields j h o := by
  induction j using it.needs_wellFounded.induction with
  | _ j ready =>
    cases j with
    | expression => exact exists_yields_expression ready
    | arguments => exact exists_yields_arguments ready
    | statements => exact exists_yields_statements ready
    | invocation => exact exists_yields_invocation ready
    | call => exact exists_yields_call ready
    | entry => exact exists_yields_entry ready

/-! ### The outcome is what the interpreter gives -/

/-- A piece of work, done by the interpreter. -/
def perform : (j : Job) → Run σ j.Result
  | .expression d s e => e.eval (it.callAt (it.left d)) s
  | .arguments d s es => Expr.evalAll (it.callAt (it.left d)) s es
  | .statements d function s body => runBody (it.callAt (it.left d)) function s body
  | .invocation d f args span => it.invoke (it.left d) f args span
  | .call name args => it.call name args
  | .entry => it.run

/-- Calls at a depth below the limit enter the function one level deeper. -/
theorem invoke_left_of_lt {d : UInt64} (hd : d < it.config.maxCallDepth) (f : ScriptFunction)
    (args : List Value) (span : Span) :
    it.invoke (it.left d) f args span =
      enter (it.callAt (it.left (d + 1))) (d + 1).toNat f args span := by
  have hsucc := toNat_succ_of_lt hd
  have hlt := UInt64.lt_iff_toNat_lt.1 hd
  rw [left_of_lt hd, invoke_succ]
  congr 1
  rw [left]
  omega

section

variable {it}

theorem callAt_of_script {callee : Identifier} {f : ScriptFunction}
    (hd : it.program.get? callee.name = some (.script f)) (budget : Nat) (args : List Value)
    (span : Span) : it.callAt budget callee args span = it.invoke budget f args span := by
  rw [callAt, hd]

theorem callAt_of_native {callee : Identifier} {i : Import}
    (hd : it.program.get? callee.name = some (.native i)) (budget : Nat) (args : List Value)
    (span : Span) : it.callAt budget callee args span = callNative it.natives i args span := by
  rw [callAt, hd]

/-- **What the rules give is what the interpreter gives.** -/
theorem Yields.perform_eq {j : Job} {h : σ} {o : Outcome σ j.Result} (ho : it.Yields j h o) :
    it.perform j h = o := by
  induction ho with
  | number | bool | string | arguments_nil | statements_nil => rfl
  | identifier hx | undeclared hx =>
    rw [perform, Expr.eval, hx]
    rfl
  | binary_fails _ ihl =>
    rw [perform, Expr.eval]
    exact Run.bind_of_error _ ihl
  | binary _ _ ihl ihr =>
    rw [perform, Expr.eval]
    refine (Run.bind_of_ok _ ihl).trans ?_
    rw [Run.bind_ofExcept, ← ihr]
    rfl
  | call_fails _ iha =>
    rw [perform, Expr.eval]
    exact Run.bind_of_error _ iha
  | call_unknown _ hd iha =>
    rw [perform, Expr.eval]
    refine (Run.bind_of_ok _ iha).trans ?_
    rw [callAt, hd]
    exact congrArg (Outcome.mk _ _) (List.append_nil _)
  | call_native _ hd hn iha =>
    rw [perform, Expr.eval]
    refine (Run.bind_of_ok _ iha).trans ?_
    rw [callAt_of_native hd, hn]
  | call_script _ hd _ iha ihi =>
    rw [perform, Expr.eval]
    refine (Run.bind_of_ok _ iha).trans ?_
    rw [callAt_of_script hd, ← ihi]
    rfl
  | arguments_fails _ ihe =>
    rw [perform, Expr.evalAll]
    exact Run.bind_of_error _ ihe
  | arguments _ _ ihe ihes =>
    rw [perform, Expr.evalAll]
    refine (Run.bind_of_ok _ ihe).trans ?_
    rw [Run.bind_pure_apply, ← ihes]
    rfl
  | @statement_fails d function s stmt rest h h₁ e es _ ihv =>
    cases stmt with
    | declaration | expression | result =>
      rw [perform, runBody]
      exact Run.bind_of_error _ ihv
  | duplicate _ hs ihv =>
    rw [perform, runBody]
    refine (Run.bind_of_ok _ ihv).trans ?_
    rw [bindNew, hs]
    rfl
  | declaration _ hs _ ihv ihr =>
    rw [perform, runBody]
    refine (Run.bind_of_ok _ ihv).trans ?_
    rw [bindNew, hs, ← ihr]
    rfl
  | expression _ _ ihv ihr =>
    rw [perform, runBody]
    refine (Run.bind_of_ok _ ihv).trans ?_
    rw [← ihr]
    rfl
  | result _ ihv =>
    rw [perform, runBody]
    exact Run.bind_of_ok _ ihv
  | @arity d f args span h hne =>
    rw [perform]
    cases it.left d with
    | zero =>
      rw [invoke_zero, checkArity, if_neg hne]
      rfl
    | succ budget =>
      rw [invoke_succ, enter, checkArity, if_neg hne]
      rfl
  | limit ha hd =>
    rw [perform, left_of_le hd, invoke_zero, checkArity, if_pos ha]
    rfl
  | parameter ha hd hb =>
    rw [perform, it.invoke_left_of_lt hd, enter, checkArity, if_pos ha, pure_bind, Run.tell_bind,
      Run.bind_of_error _ hb]
  | invocation ha hd hb _ ihs =>
    rw [perform, it.invoke_left_of_lt hd, enter, checkArity, if_pos ha, pure_bind, Run.tell_bind,
      Run.bind_of_ok _ hb, ← ihs]
    rfl
  | missing hd | entry_missing hd | entry_native hd =>
    simp only [perform, call, run, hd]
    rfl
  | native hd hn =>
    rw [perform, call, hd]
    exact hn
  | script hd _ ihi =>
    rw [perform, call, hd]
    exact ihi
  | entry_invalid hd hp =>
    simp only [perform, run, hd, List.isEmpty_iff, if_neg hp]
    rfl
  | entry hd hp _ ihi =>
    simp only [perform, run, hd, List.isEmpty_iff, if_pos hp]
    exact ihi

end

/-- **The rules give each work the outcome that the interpreter gives it**, and no other. -/
theorem yields_iff {j : Job} {h : σ} {o : Outcome σ j.Result} :
    it.Yields j h o ↔ it.perform j h = o := by
  refine ⟨Yields.perform_eq, ?_⟩
  rintro rfl
  obtain ⟨o, ho⟩ := it.exists_yields j h
  rwa [ho.perform_eq]

end Interpreter

end Scriptlet
