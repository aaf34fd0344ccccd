import Mathlib.Logic.Relation
import Scriptlet.Proofs.Run.NativeCall

/-!
# What work is done in the course of

`Interpreter.Needs` says which work may come up in the course of other work, whatever values come up
on the way. `Interpreter.Does` says which work really comes up, and on which host. So it leads from
a run to each call that is made in it: `Interpreter.Calls` gives the arguments of a call of an
import, the span to blame and the host at the time.

Work that is done in the course of other work is run by it as its first part, once all before it has
gone well. Therefore a failure inside is the failure of the whole, and the log only grows.

## Main definitions

* `Interpreter.Does` — work that comes up in the course of other work
* `Interpreter.Calls` — an import is called in the course of work
* `Run.Includes` — a run has another one as a part

## Main results

* `Interpreter.Does.includes`, `Interpreter.Calls.includes` — what comes up is run
* `Run.Includes.of_error` — a failure is final
-/

namespace Scriptlet

variable {σ α β γ : Type}

/-! ### Runs as parts of runs -/

namespace Run

/-- In the course of `m` on the host `h`, `n` is run on the host `h'`. All that comes after it
depends on its value, and adds to the log. -/
def Includes (m : Run (Recorded σ) α) (h : Recorded σ) (n : Run (Recorded σ) β)
    (h' : Recorded σ) : Prop :=
  ∃ (before : List Event) (f : β → Run (Recorded σ) α), (∀ b, (f b).Appends) ∧
    m h = ⟨((n >>= f) h').result, ((n >>= f) h').host, before ++ ((n >>= f) h').events⟩

theorem Appends.pure (a : α) : (Pure.pure a : Run (Recorded σ) α).Appends :=
  .of_step fun _ => rfl

namespace Includes

theorem refl (m : Run (Recorded σ) α) (h : Recorded σ) : m.Includes h m h :=
  ⟨[], Pure.pure, .pure, by rw [bind_pure]; rfl⟩

/-- The first part of a run. -/
theorem of_bind {n : Run (Recorded σ) β} {f : β → Run (Recorded σ) α} (hf : ∀ b, (f b).Appends)
    (h : Recorded σ) : (n >>= f).Includes h n h :=
  ⟨[], f, hf, rfl⟩

/-- What a run does after its first part. -/
theorem of_ok {n : Run (Recorded σ) β} {f : β → Run (Recorded σ) α} {h h' : Recorded σ} {b : β}
    {es : List Event} (hn : n h = ⟨.ok b, h', es⟩) : (n >>= f).Includes h (f b) h' :=
  ⟨es, Pure.pure, .pure, by rw [bind_pure, bind_of_ok f hn]⟩

theorem trans {m : Run (Recorded σ) α} {n : Run (Recorded σ) β} {k : Run (Recorded σ) γ}
    {h h' h'' : Recorded σ} (hm : m.Includes h n h') (hn : n.Includes h' k h'') :
    m.Includes h k h'' := by
  obtain ⟨es, f, hf, hm⟩ := hm
  obtain ⟨es', g, hg, hn⟩ := hn
  refine ⟨es ++ es', fun c => g c >>= f, fun c => (hg c).bind hf, ?_⟩
  rw [hm, ← bind_assoc]
  rcases ho : (k >>= g) h'' with ⟨e | b, h₁, es₁⟩
  · rw [ho] at hn
    rw [bind_of_error f hn, bind_of_error f ho, List.append_assoc]
  · rw [ho] at hn
    simp only [bind_of_ok f hn, bind_of_ok f ho, List.append_assoc]

variable {m : Run (Recorded σ) α} {n : Run (Recorded σ) β} {h h' : Recorded σ}

/-- **A failure is final**: nothing is done or told after it, and it is the failure of the whole. -/
theorem of_error (hm : m.Includes h n h') {e : RuntimeError} {h₁ : Recorded σ} {es : List Event}
    (hn : n h' = ⟨.error e, h₁, es⟩) : ∃ before, m h = ⟨.error e, h₁, before ++ es⟩ := by
  obtain ⟨before, f, -, hm⟩ := hm
  refine ⟨before, ?_⟩
  rw [hm, bind_of_error f hn]

/-- What is in the log after a part is in it at the end. -/
theorem log_prefix (hm : m.Includes h n h') : (n h').host.2 <+: (m h).host.2 := by
  obtain ⟨before, f, hf, hm⟩ := hm
  rw [hm]
  exact Appends.prefix_bind hf h'

end Includes

end Run

theorem bindNew_appends (s : Scope) (name : Identifier) (v : Value) :
    (bindNew s name v : Run (Recorded σ) Scope).Appends := by
  rw [bindNew]
  cases s.declare? name.name v with
  | none => exact .of_step fun _ => rfl
  | some t => exact .pure t

namespace Interpreter

variable (it : Interpreter σ)

/-! ### Work in the course of other work -/

/-- In the course of a piece of work on a host, another piece of work is begun on a host. -/
inductive Does : Job × σ → Job × σ → Prop
  | lhs {d s level lhs op opSpan rhs span h} :
      Does (.expression d s (.binary level lhs op opSpan rhs span), h) (.expression d s lhs, h)
  | rhs {d s level lhs op opSpan rhs span h h₁ a es}
      (hl : it.Yields (.expression d s lhs) h ⟨.ok a, h₁, es⟩) :
      Does (.expression d s (.binary level lhs op opSpan rhs span), h) (.expression d s rhs, h₁)
  | arguments {d s callee args span h} :
      Does (.expression d s (.call callee args span), h) (.arguments d s args, h)
  | callee {d s callee args span h h₁ vs es f}
      (ha : it.Yields (.arguments d s args) h ⟨.ok vs, h₁, es⟩)
      (hd : it.program.get? callee.name = some (.script f)) :
      Does (.expression d s (.call callee args span), h) (.invocation d f vs span, h₁)
  | head {d s e es h} : Does (.arguments d s (e :: es), h) (.expression d s e, h)
  | tail {d s e es h h₁ v evs} (he : it.Yields (.expression d s e) h ⟨.ok v, h₁, evs⟩) :
      Does (.arguments d s (e :: es), h) (.arguments d s es, h₁)
  | value {d function s stmt rest h} :
      Does (.statements d function s (stmt :: rest), h) (.expression d s stmt.value, h)
  | declared {d function s t name value span rest h h₁ v es}
      (hv : it.Yields (.expression d s value) h ⟨.ok v, h₁, es⟩)
      (hs : s.declare? name.name v = some t) :
      Does (.statements d function s (.declaration name value span :: rest), h)
        (.statements d function t rest, h₁)
  | next {d function s value span rest h h₁ v es}
      (hv : it.Yields (.expression d s value) h ⟨.ok v, h₁, es⟩) :
      Does (.statements d function s (.expression value span :: rest), h)
        (.statements d function s rest, h₁)
  | body {d f args span h s} (ha : f.arity = args.length) (hd : d < it.config.maxCallDepth)
      (hb : bindAll ∅ (f.params.zip args) h = ⟨.ok s, h, []⟩) :
      Does (.invocation d f args span, h) (.statements (d + 1) f.name.name s f.body, h)
  | call {name args h f} (hd : it.program.get? name = some (.script f)) :
      Does (.call name args, h) (.invocation 0 f args f.name.span, h)
  | entry {h f} (hd : it.program.get? it.config.entryPoint = some (.script f))
      (hp : f.params = []) : Does (.entry, h) (.invocation 0 f [] f.name.span, h)

/-- In the course of a piece of work on a host, an import is called with some arguments on a host.
If the call stands in the script, then these are the values of its arguments in written order, and
its span is to blame. If the host calls the import itself, it is the span of the name. -/
inductive Calls : Job × σ → Import → List Value → Span → σ → Prop
  | written {j d s callee es span h h₁ vs evs i}
      (hj : Relation.ReflTransGen it.Does j (.expression d s (.call callee es span), h))
      (ha : it.Yields (.arguments d s es) h ⟨.ok vs, h₁, evs⟩)
      (hd : it.program.get? callee.name = some (.native i)) : Calls j i vs span h₁
  | direct {name args h i} (hd : it.program.get? name = some (.native i)) :
      Calls (.call name args, h) i args i.name.span h

variable {it}

/-- What an import is called for in the course of work, it is called for in the course of all that
the work is done for. -/
theorem Calls.of_does {j k : Job × σ} {i : Import} {args : List Value} {span : Span} {h : σ}
    (hj : it.Does j k) (hk : it.Calls k i args span h) : it.Calls j i args span h := by
  cases hk with
  | written hw ha hd => exact .written (.head hj hw) ha hd
  | direct => cases hj

/-! ### What comes up is run -/

theorem recording_callAt (it : Interpreter σ) (budget : Nat) (callee : Identifier) :
    (recording σ).Callers (it.callAt budget) (it.recorded.callAt budget) callee :=
  @Simulation.callAt _ _ (recording σ) it it.recorded budget budget rfl (it.recording_invoke budget)
    (recording_callNative it.natives) callee

/-- All work adds to the log. -/
theorem appends_perform (it : Interpreter σ) (j : Job) : (it.recorded.perform j).Appends := by
  cases j with
  | expression d s e =>
    exact (Simulation.eval (Simulation.scopes_refl s) e fun c _ => it.recording_callAt _ c).appends
  | arguments d s es =>
    exact (Simulation.evalAll (Simulation.scopes_refl s) es
      fun c _ => it.recording_callAt _ c).appends
  | statements d function s body =>
    exact (Simulation.runBody function body (Simulation.scopes_refl s)
      fun c _ => it.recording_callAt _ c).appends
  | invocation d f args span =>
    exact (it.recording_invoke _ f span (Simulation.values_refl args)).appends
  | call name args => exact (it.recording_call name args).appends
  | entry => exact it.recording_run.appends

/-! ### Work as a sequence of work -/

section

variable (it : Interpreter σ) (d : UInt64) (s : Scope)

theorem perform_binary (level : Level) (lhs : Expr) (op : Operator) (opSpan : Span) (rhs : Expr)
    (span : Span) :
    it.perform (.expression d s (.binary level lhs op opSpan rhs span)) =
      it.perform (.expression d s lhs) >>= fun a => it.perform (.expression d s rhs) >>= fun b =>
        Run.ofExcept (Value.applyAt op a b opSpan) := by
  simp only [perform, Expr.eval]

theorem perform_call_expression (callee : Identifier) (args : List Expr) (span : Span) :
    it.perform (.expression d s (.call callee args span)) =
      it.perform (.arguments d s args) >>= fun vs => it.callAt (it.left d) callee vs span := by
  simp only [perform, Expr.eval]

theorem perform_arguments_cons (e : Expr) (es : List Expr) :
    it.perform (.arguments d s (e :: es)) =
      it.perform (.expression d s e) >>= fun v => it.perform (.arguments d s es) >>= fun vs =>
        pure (v :: vs) := by
  simp only [perform, Expr.evalAll]

/-- A statement evaluates its expression before all else. -/
theorem perform_statements_cons (function : String) (stmt : Stmt) (rest : List Stmt) :
    it.perform (.statements d function s (stmt :: rest)) =
      it.perform (.expression d s stmt.value) >>= fun v =>
        match stmt with
        | .declaration name _ _ => Run.tell (.declare name.name v) >>= fun _ =>
          bindNew s name v >>= fun t => it.perform (.statements d function t rest)
        | .expression _ _ => it.perform (.statements d function s rest)
        | .result _ _ => Run.tell (.returned function v) >>= fun _ => pure v := by
  cases stmt <;> simp only [perform, runBody, Stmt.value]

theorem perform_invocation {d : UInt64} (hd : d < it.config.maxCallDepth) {f : ScriptFunction}
    {args : List Value} (ha : f.arity = args.length) (span : Span) :
    it.perform (.invocation d f args span) =
      Run.tell (.invoke f.name.name (d + 1).toNat) >>= fun _ =>
        bindAll ∅ (f.params.zip args) >>= fun s =>
          it.perform (.statements (d + 1) f.name.name s f.body) := by
  simp only [perform, it.invoke_left_of_lt hd, enter, checkArity, if_pos ha, pure_bind]

end

/-- **What comes up in the course of work is run.** -/
theorem Does.includes {j k : Job} {h h' : Recorded σ} (hj : it.recorded.Does (j, h) (k, h')) :
    (it.recorded.perform j).Includes h (it.recorded.perform k) h' := by
  have htell : ∀ e : Event, (Run.tell e : Run (Recorded σ) Unit).Appends :=
    fun e => .of_step fun _ => rfl
  have hperform := it.appends_perform
  cases hj with
  | lhs =>
    rw [perform_binary]
    exact .of_bind (fun a => (hperform _).bind fun b => .of_step fun _ => rfl) h
  | rhs hl =>
    rw [perform_binary]
    exact (Run.Includes.of_ok hl.perform_eq).trans (.of_bind (fun b => .of_step fun _ => rfl) h')
  | @arguments _ _ callee _ span =>
    rw [perform_call_expression]
    refine .of_bind (fun vs => ?_) h
    exact (it.recording_callAt _ callee span (Simulation.values_refl vs)).appends
  | @callee d _ callee _ span _ _ vs _ f ha hd =>
    have hcall : it.recorded.callAt (it.recorded.left d) callee vs span =
        it.recorded.perform (.invocation d f vs span) := callAt_of_script hd _ vs span
    rw [perform_call_expression, ← hcall]
    exact .of_ok ha.perform_eq
  | head =>
    rw [perform_arguments_cons]
    exact .of_bind (fun v => (hperform _).bind fun vs => .pure _) h
  | tail he =>
    rw [perform_arguments_cons]
    exact (Run.Includes.of_ok he.perform_eq).trans (.of_bind (fun vs => .pure _) h')
  | @value d function s stmt rest =>
    rw [perform_statements_cons]
    refine .of_bind (fun v => ?_) h
    cases stmt with
    | declaration name value span =>
      exact (htell _).bind fun _ => (bindNew_appends s name v).bind fun t => hperform _
    | expression value span => exact hperform _
    | result value span => exact (htell _).bind fun _ => .pure v
  | @declared _ _ s t name _ _ _ _ _ v _ hv hs =>
    have hnew : bindNew s name v h' = ⟨.ok t, h', []⟩ := by
      rw [bindNew, hs]
      rfl
    rw [perform_statements_cons]
    refine (Run.Includes.of_ok hv.perform_eq).trans ?_
    exact (Run.Includes.of_ok (b := ()) rfl).trans (.of_ok hnew)
  | next hv =>
    rw [perform_statements_cons]
    exact .of_ok hv.perform_eq
  | body ha hd hb =>
    rw [it.recorded.perform_invocation hd ha]
    exact (Run.Includes.of_ok (b := ()) rfl).trans (.of_ok hb)
  | call hd =>
    rw [perform, perform, Interpreter.call, hd]
    exact .refl _ _
  | entry hd hp =>
    simp only [perform, run, hd, List.isEmpty_iff, if_pos hp]
    exact .refl _ _

/-- What comes up further and further inside is run. -/
theorem includes_of_reflTransGen {j k : Job × Recorded σ}
    (hj : Relation.ReflTransGen it.recorded.Does j k) :
    (it.recorded.perform j.1).Includes j.2 (it.recorded.perform k.1) k.2 := by
  induction hj with
  | refl => exact .refl _ _
  | tail _ hk ih => exact ih.trans hk.includes

/-- **The calls of imports in the course of work are made.** -/
theorem Calls.includes {j : Job × Recorded σ} {i : Import} {args : List Value} {span : Span}
    {h : Recorded σ} (hj : it.recorded.Calls j i args span h) :
    (it.recorded.perform j.1).Includes j.2 (callNative it.natives.recorded i args span) h := by
  cases hj with
  | @written _ d _ callee _ _ _ _ _ _ _ hw ha hd =>
    have hcall : it.recorded.callAt (it.recorded.left d) callee args span =
        callNative it.natives.recorded i args span := callAt_of_native hd _ args span
    refine (includes_of_reflTransGen hw).trans ?_
    rw [perform_call_expression, ← hcall]
    exact .of_ok ha.perform_eq
  | direct hd =>
    rw [perform, Interpreter.call, hd]
    exact .refl _ _

end Interpreter

end Scriptlet
