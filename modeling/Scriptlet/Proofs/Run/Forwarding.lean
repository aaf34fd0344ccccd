import Mathlib
import Scriptlet.Proofs.Grammar.Definitions
import Scriptlet.Proofs.Run.DeadCode
import Scriptlet.Proofs.Run.Limit
import Scriptlet.Proofs.Run.NativeCall

/-!
# Calls from a host and calls from a script

A host can call any function of a program. A script can do the same from a function whose only
statement returns the call, with the arguments written out. The second way is the first one level
further down: everything happens as before, with one more call around it.

Two things tell the ways apart. All calls stand one level deeper, so events count one more and an
error that names the limit names the higher one. And an error that blames the call as a whole blames
another place: a script has a text for the call, and a host has only the name of the function. Such
errors are those that come before the function is entered, and failures of native functions; errors
from inside a script function do not know who called it.

## Main definitions

* `Event.deeper`, `RuntimeError.deeper`, `Outcome.deeper` — one level further down
* `RuntimeError.blaming`, `Outcome.blaming` — with another place for the call as a whole
* `Outcome.entered` — a script function was entered
* `Program.Unused` — a name that is neither defined nor called
* `forwarding` — the function that returns a call

## Main results

* `Interpreter.callAt_moved` — the span of a call shows in errors that blame the call only
* `Interpreter.callAt_deeper` — a call under the next limit is a call one level further down
* `Interpreter.run_forwarding` — a call from a script is a call from the host, one level down
-/

namespace Scriptlet

variable {σ α β : Type}

/-! ### Further down, and in another place -/

/-- The same event one level further down. -/
def Event.deeper : Event → Event
  | invoke function depth => invoke function (depth + 1)
  | e => e

/-- Whether a script function starts. -/
def Event.isInvoke : Event → Bool
  | invoke .. => true
  | _ => false

namespace RuntimeError

/-- The same error under the next limit. -/
def deeper : RuntimeError → RuntimeError
  | callDepthExceeded name limit span => callDepthExceeded name (limit + 1) span
  | e => e

/-- The same error with another place to blame, if it blames one. -/
def blaming (span : Span) : RuntimeError → RuntimeError
  | duplicateVariable name _ => duplicateVariable name span
  | undeclaredVariable name _ => undeclaredVariable name span
  | unknownFunction name _ => unknownFunction name span
  | unknownModule module function _ => unknownModule module function span
  | unknownNativeFunction module function _ => unknownNativeFunction module function span
  | arityMismatch name expected actual _ => arityMismatch name expected actual span
  | typeMismatch op lhs rhs _ => typeMismatch op lhs rhs span
  | missingEntryPoint name => missingEntryPoint name
  | invalidEntryPoint name _ => invalidEntryPoint name span
  | native module function message _ => native module function message span
  | callDepthExceeded name limit _ => callDepthExceeded name limit span

theorem deeper_of_not_isCallDepth {e : RuntimeError} (h : e.isCallDepth = false) :
    e.deeper = e := by
  cases e <;> first | rfl | cases h

end RuntimeError

namespace Outcome

/-- Whether a script function was entered. -/
def entered (o : Outcome σ α) : Bool := o.events.any Event.isInvoke

/-- The same outcome one level further down. -/
def deeper (o : Outcome σ α) : Outcome σ α :=
  ⟨o.result.mapError RuntimeError.deeper, o.host, o.events.map Event.deeper⟩

/-- The outcome of a call that stands in another place. What fails inside a script function has its
own place there. -/
def blaming (span : Span) (o : Outcome σ α) : Outcome σ α :=
  if o.entered then o else ⟨o.result.mapError (RuntimeError.blaming span), o.host, o.events⟩

theorem entered_deeper (o : Outcome σ α) : o.deeper.entered = o.entered := by
  have hevent : ∀ e : Event, e.deeper.isInvoke = e.isInvoke := by rintro ⟨⟩ <;> rfl
  simp only [entered, deeper, List.any_map, Function.comp_def, hevent]

end Outcome

/-! ### Calls that stand in another place -/

/-- Outcomes of a call that stands in two places: they differ in errors that blame the call only. -/
structure Outcome.Moved (span span' : Span) (o o' : Outcome σ α) : Prop where
  eq : o' = o.blaming span'
  span?_eq : ∀ e, o.entered = false → o.result = .error e → e.span? = some span

theorem Registry.Refuses.blaming {r : Registry σ} {i : Import} {args : Nat} {span : Span}
    {e : RuntimeError} (h : r.Refuses i args span e) (span' : Span) :
    r.Refuses i args span' (e.blaming span') := by
  cases h with
  | module hm => exact .module hm
  | function hm hf => exact .function hm hf
  | arity hm hf ha => exact .arity hm hf ha

theorem Registry.Refuses.span?_eq {r : Registry σ} {i : Import} {args : Nat} {span : Span}
    {e : RuntimeError} (h : r.Refuses i args span e) : e.span? = some span := by
  cases h <;> rfl

theorem callNative_moved (natives : Registry σ) (i : Import) (args : List Value)
    (span span' : Span) (h : σ) :
    (callNative natives i args span h).Moved span span' (callNative natives i args span' h) := by
  obtain ⟨f, ha⟩ | ⟨e, hr⟩ := natives.accepts_or_refuses i args.length span
  · rw [callNative_of_accepts ha, callNative_of_accepts ha]
    cases (f.call args h).1 with
    | ok v => exact ⟨rfl, fun e _ he => by cases he⟩
    | error message =>
      refine ⟨rfl, fun e _ he => ?_⟩
      cases he
      rfl
  · rw [callNative_of_refuses hr, callNative_of_refuses (hr.blaming span')]
    refine ⟨rfl, fun e' _ he => ?_⟩
    cases he
    exact hr.span?_eq

/-- A call with the right number of arguments enters the function, whoever calls. -/
theorem enter_of_arity_eq {f : ScriptFunction} {args : List Value} (ha : f.arity = args.length)
    (call : Caller σ) (depth : Nat) (span : Span) :
    enter call depth f args span = (do
      Run.tell (.invoke f.name.name depth)
      let scope ← bindAll ∅ (f.params.zip args)
      runBody call f.name.name scope f.body) := by
  rw [enter, checkArity, if_pos ha, pure_bind]

namespace Interpreter

variable (it : Interpreter σ)

theorem invoke_moved (budget : Nat) (f : ScriptFunction) (args : List Value) (span span' : Span)
    (h : σ) :
    (it.invoke budget f args span h).Moved span span' (it.invoke budget f args span' h) := by
  by_cases ha : f.arity = args.length
  · cases budget with
    | zero =>
      rw [invoke_zero, invoke_zero, checkArity, checkArity, if_pos ha, if_pos ha]
      refine ⟨rfl, fun e _ he => ?_⟩
      cases he
      rfl
    | succ budget =>
      rw [invoke_succ, invoke_succ, enter_of_arity_eq ha, enter_of_arity_eq ha, Run.tell_bind]
      exact ⟨rfl, fun e hn _ => by cases hn⟩
  · rw [it.invoke_of_arity_ne ha, it.invoke_of_arity_ne ha]
    refine ⟨rfl, fun e _ he => ?_⟩
    cases he
    rfl

/-- **Where a call stands** shows in errors that blame the call, and in nothing else. -/
theorem callAt_moved {callee : Identifier} {d : Definition}
    (hd : it.program.get? callee.name = some d) (budget : Nat) (args : List Value)
    (span span' : Span) (h : σ) :
    (it.callAt budget callee args span h).Moved span span'
      (it.callAt budget callee args span' h) := by
  rw [callAt, callAt, hd]
  cases d with
  | script f => exact it.invoke_moved budget f args span span' h
  | native i => exact callNative_moved it.natives i args span span' h

/-- A host calls a function in the place where it is named. -/
theorem call_eq_callAt {callee : Identifier} {d : Definition}
    (hd : it.program.get? callee.name = some d) (args : List Value) :
    it.call callee.name args =
      it.callAt it.config.maxCallDepth.toNat callee args d.name.span := by
  rw [call, callAt, hd]
  cases d <;> rfl

end Interpreter

/-! ### Calls one level further down -/

/-- `m'` does what `m` does, one level further down. -/
def Run.Deepens (Q : α → α → Prop) (m m' : Run σ α) : Prop :=
  ∀ h, Results Q ((m h).result.mapError RuntimeError.deeper) (m' h).result ∧
    (m' h).host = (m h).host ∧ (m' h).events = (m h).events.map Event.deeper

namespace Run.Deepens

theorem of_step {Q : α → α → Prop} {m m' : Run σ α} {r r' : Except RuntimeError α}
    {es es' : List Event} (hm : ∀ h, m h = ⟨r, h, es⟩) (hm' : ∀ h, m' h = ⟨r', h, es'⟩)
    (hr : Results Q (r.mapError RuntimeError.deeper) r') (he : es' = es.map Event.deeper) :
    Run.Deepens Q m m' := by
  intro h
  rw [hm, hm']
  exact ⟨hr, rfl, he⟩

theorem bind {Q : α → α → Prop} {R : β → β → Prop} {m m' : Run σ α} {f f' : α → Run σ β}
    (hm : Run.Deepens Q m m') (hf : ∀ a b, Q a b → Run.Deepens R (f a) (f' b)) :
    Run.Deepens R (m >>= f) (m' >>= f') := by
  intro h
  obtain ⟨hr, hh, he⟩ := hm h
  rcases ho : m h with ⟨e | a, h₁, es⟩
  · rcases ho' : m' h with ⟨r', h₁', es'⟩
    rw [ho, ho'] at hr hh he
    cases hr
    rw [bind_of_error f ho, bind_of_error f' ho']
    exact ⟨.error _, hh, he⟩
  · rcases ho' : m' h with ⟨r', h₁', es'⟩
    rw [ho, ho'] at hr hh he
    obtain rfl : h₁' = h₁ := hh
    cases hr with
    | ok hab =>
      obtain ⟨hr', hh', he'⟩ := hf _ _ hab h₁'
      rw [bind_of_ok f ho, bind_of_ok f' ho']
      refine ⟨hr', hh', ?_⟩
      rw [List.map_append, he']
      exact congrArg (· ++ _) he

theorem eq_deeper {m m' : Run σ α} (hm : Run.Deepens Eq m m') (h : σ) : m' h = (m h).deeper := by
  obtain ⟨hr, hh, he⟩ := hm h
  rcases ho : m h with ⟨r, h₁, es⟩
  rcases ho' : m' h with ⟨r', h₁', es'⟩
  rw [ho, ho'] at hr hh he
  obtain rfl := results_eq_iff.1 hr
  obtain rfl : h₁' = h₁ := hh
  obtain rfl : es' = es.map Event.deeper := he
  rfl

end Run.Deepens

/-- The comparison of runs with those one level further down. -/
def deepening (σ : Type) : Simulation σ σ where
  Values := Eq
  Runs := Run.Deepens
  refl _ := rfl
  pure hq := .of_step (fun _ => rfl) (fun _ => rfl) (.ok hq) rfl
  bind _ hm hf := hm.bind hf
  fail he := by
    refine .of_step (fun _ => rfl) (fun _ => rfl) ?_ rfl
    rw [Except.mapError, RuntimeError.deeper_of_not_isCallDepth he]
    exact .error _
  operate := by
    rintro a _ b _ op span rfl rfl
    refine .of_step (fun _ => rfl) (fun _ => rfl) ?_ rfl
    cases hv : Value.applyAt op a b span with
    | ok v => exact .ok rfl
    | error e =>
      obtain rfl := Value.error_of_applyAt hv
      exact .error _
  declare := by
    rintro v _ name rfl
    exact .of_step (fun _ => rfl) (fun _ => rfl) (.ok rfl) rfl
  returned := by
    rintro v _ function rfl
    exact .of_step (fun _ => rfl) (fun _ => rfl) (.ok rfl) rfl
  returnedVoid _ := .of_step (fun _ => rfl) (fun _ => rfl) (.ok rfl) rfl

theorem deepening_callNative (natives : Registry σ) : (deepening σ).Natives natives natives := by
  refine @Simulation.natives _ _ (deepening σ) _ _ rfl
    (fun _ _ => .of_step (fun _ => rfl) (fun _ => rfl) (.ok rfl) rfl) ?_
  intro i f f' hf hf' args args' span ha h
  obtain rfl : args = args' := List.forall₂_eq_eq_eq.symm ▸ ha
  obtain rfl := Option.some.inj (hf.symm.trans hf')
  rw [Run.onHost_apply]
  refine ⟨?_, rfl, rfl⟩
  cases (f.call args h).1 with
  | ok v => exact .ok rfl
  | error message => exact .error _

namespace Interpreter

variable (p : Program) (natives : Registry σ)

theorem deepening_invoke {c c' : Config}
    (hc : c'.maxCallDepth.toNat = c.maxCallDepth.toNat + 1) {budget : Nat}
    (hb : budget ≤ c.maxCallDepth.toNat) :
    (deepening σ).Invokes ⟨p, natives, c⟩ budget ⟨p, natives, c'⟩ budget := by
  refine @Simulation.invoke_upTo _ _ (deepening σ) ⟨p, natives, c⟩ ⟨p, natives, c'⟩ 0
    c.maxCallDepth.toNat rfl ?_ (fun name budget hlt => ?_) (deepening_callNative natives) budget hb
  · intro f args args' span ha
    obtain rfl : args = args' := List.forall₂_eq_eq_eq.symm ▸ ha
    rw [invoke_zero, invoke_zero]
    refine Run.Deepens.bind (@Simulation.checkArity _ _ (deepening σ) _ _ _ _) fun _ _ _ => ?_
    refine .of_step (fun _ => rfl) (fun _ => rfl) ?_ rfl
    rw [hc]
    exact .error _
  · refine .of_step (fun _ => rfl) (fun _ => rfl) (.ok rfl) ?_
    have hdepth : c'.maxCallDepth.toNat - (budget + 0) = c.maxCallDepth.toNat - budget + 1 := by
      omega
    exact congrArg (fun n => [Event.invoke name n]) hdepth

/-- **A call under the next limit** is a call one level further down. -/
theorem callAt_deeper {c c' : Config} (hc : c'.maxCallDepth.toNat = c.maxCallDepth.toNat + 1)
    (callee : Identifier) (args : List Value) (span : Span) (h : σ) :
    callAt ⟨p, natives, c'⟩ c.maxCallDepth.toNat callee args span h =
      (callAt ⟨p, natives, c⟩ c.maxCallDepth.toNat callee args span h).deeper := by
  have hinvoke := deepening_invoke p natives hc (Nat.le_refl _)
  exact Run.Deepens.eq_deeper (@Simulation.callAt _ _ (deepening σ) ⟨p, natives, c⟩
    ⟨p, natives, c'⟩ _ _ rfl hinvoke (deepening_callNative natives) callee _ _ span
    (Simulation.values_refl args)) h

end Interpreter

/-! ### Functions that return a call -/

/-- An expression that writes a value out. -/
inductive Literal : Value → Expr → Prop
  | number (x : Float) (span : Span) : Literal (.number x) (.number x span)
  | bool (b : Bool) (span : Span) : Literal (.bool b) (.bool b span)
  | string (s : String) (span : Span) : Literal (.string s) (.string s span)

theorem Expr.evalAll_literals {args : List Value} {es : List Expr}
    (h : List.Forall₂ Literal args es) (call : Caller σ) (s : Scope) :
    Expr.evalAll call s es = pure args := by
  induction h with
  | nil => rfl
  | cons hv _ ih =>
    rw [Expr.evalAll, ih]
    cases hv <;> rw [Expr.eval, pure_bind, pure_bind]

/-- The function whose only statement returns a call. -/
def forwarding (name callee : Identifier) (args : List Expr) (callSpan returnSpan span : Span) :
    ScriptFunction :=
  ⟨name, [], [.result (.call callee args callSpan) returnSpan], span⟩

namespace Program

/-- A name that is neither defined nor called, but maybe in statements that are never run. -/
structure Unused (p : Program) (name : String) : Prop where
  undefined : p.get? name = none
  uncalled : ∀ x f, p.get? x = some (.script f) → ∀ c ∈ liveCallees f.body, c.name ≠ name

/-- A new function that nothing calls changes nothing for the others. -/
theorem Unused.agreesFrom {p : Program} {f : ScriptFunction} (hf : p.Unused f.name.name)
    {name : String} (hname : name ≠ f.name.name) : p.AgreesFrom name (p.add (.script f)) := by
  intro x hx
  have hne : x ≠ f.name.name := by
    cases hx with
    | start => exact hname
    | callee hx hg hc => exact hf.uncalled _ _ hg _ hc
  have hget : (p.add (.script f)).get? x = p.get? x := (get?_add ..).trans (if_neg hne)
  rw [hget]
  exact sameLive_refl _

end Program

/-- How the outcome `o` of a call from the host, where the function is named at `place`, compares
with the outcome `o'` of a run of the function `name` that returns that call, written at
`callSpan`. -/
structure Outcome.ReturnedBy (name : String) (place callSpan : Span) (o o' : Outcome σ Value) :
    Prop where
  host : o'.host = o.host
  /-- The same events one level further down, between the start and the return of the function. -/
  events : o'.events = .invoke name 1 :: o.events.map Event.deeper ++
    match o.result with
    | .ok v => [.returned name v]
    | .error _ => []
  value : ∀ v, o.result = .ok v → o'.result = .ok v
  /-- An error from inside a script function has its place there. -/
  inside : ∀ e, o.result = .error e → o.entered = true → o'.result = .error e.deeper
  /-- Any other error blames the call as a whole. -/
  outermost : ∀ e, o.result = .error e → o.entered = false →
    e.span? = some place ∧ o'.result = .error (e.deeper.blaming callSpan)

namespace Interpreter

variable {p : Program} {natives : Registry σ} {c : Config} {w callee : Identifier}
  {args : List Value} {es : List Expr} {callSpan returnSpan span : Span}

/-- What a run does that starts with a function that returns a call. -/
theorem run_eq_of_forwarding (hargs : List.Forall₂ Literal args es) (hw : c.entryPoint = w.name)
    {budget : Nat} (hc : c.maxCallDepth.toNat = budget + 1)
    (hp : p.get? w.name = some (.script (forwarding w callee es callSpan returnSpan span))) :
    run ⟨p, natives, c⟩ = (do
      Run.tell (.invoke w.name 1)
      let v ← callAt ⟨p, natives, c⟩ budget callee args callSpan
      Run.tell (.returned w.name v)
      return v) := by
  have hdepth : c.maxCallDepth.toNat - budget = 1 := by omega
  rw [run]
  simp only [hw, hp]
  rw [if_pos (show (forwarding ..).params.isEmpty = true from rfl), hc, invoke_succ,
    enter_of_arity_eq rfl]
  simp only [hdepth]
  rw [forwarding]
  simp only [List.zip_nil_left, bindAll, pure_bind, runBody]
  rw [Expr.eval, Expr.evalAll_literals hargs, pure_bind]

/-- What a function makes of the call that it returns. -/
theorem returnedBy_of_eq {m : Run σ Value} {name : String} {place : Span} {h : σ}
    {o : Outcome σ Value} (hm : m h = o.deeper.blaming callSpan)
    (ho : ∀ e, o.entered = false → o.result = .error e → e.span? = some place) :
    o.ReturnedBy name place callSpan ((do
      Run.tell (.invoke name 1)
      let v ← m
      Run.tell (.returned name v)
      return v : Run σ Value) h) := by
  rw [Run.tell_bind]
  have hentered := o.entered_deeper
  rw [Outcome.blaming, hentered] at hm
  rcases o with ⟨e | v, host, es⟩
  · cases hin : Outcome.entered (⟨.error e, host, es⟩ : Outcome σ Value) with
    | false =>
      rw [if_neg (by simp [hin])] at hm
      rw [Run.bind_of_error _ hm]
      refine ⟨rfl, (List.append_nil _).symm, nofun, ?_, ?_⟩
      · rintro e' - hin'
        simp [hin] at hin'
      · rintro e' ⟨⟩ -
        exact ⟨ho e hin rfl, rfl⟩
    | true =>
      rw [if_pos hin] at hm
      rw [Run.bind_of_error _ hm]
      refine ⟨rfl, (List.append_nil _).symm, nofun, ?_, ?_⟩
      · rintro e' ⟨⟩ -
        rfl
      · rintro e' - hin'
        simp [hin] at hin'
  · have hok : m h = ⟨.ok v, host, es.map Event.deeper⟩ := hm.trans (by split <;> rfl)
    rw [Run.bind_of_ok _ hok]
    refine ⟨rfl, rfl, ?_, nofun, nofun⟩
    rintro v' ⟨⟩
    rfl

/-- What the direct call does, and what the run does that starts with the new function. -/
theorem returnedBy_run {limit : UInt64} {d : Definition} (natives : Registry σ)
    (hw : p.Unused w.name) (hd : p.get? callee.name = some d)
    (hargs : List.Forall₂ Literal args es) (hlimit : limit.toNat + 1 < UInt64.size)
    (entry : String) (callSpan returnSpan span : Span) (h : σ) :
    (call ⟨p, natives, ⟨entry, limit⟩⟩ callee.name args h).ReturnedBy w.name d.name.span callSpan
      (run ⟨p.add (.script (forwarding w callee es callSpan returnSpan span)), natives,
        ⟨w.name, limit + 1⟩⟩ h) := by
  have hsucc : (limit + 1).toNat = limit.toNat + 1 :=
    (UInt64.toNat_add ..).trans (Nat.mod_eq_of_lt hlimit)
  have hne : callee.name ≠ w.name := by
    intro he
    rw [he, hw.undefined] at hd
    cases hd
  have hget : (p.add (.script (forwarding w callee es callSpan returnSpan span))).get? w.name =
      some (.script (forwarding w callee es callSpan returnSpan span)) :=
    (Program.get?_add ..).trans (if_pos rfl)
  have hagree : p.AgreesFrom callee.name
      (p.add (.script (forwarding w callee es callSpan returnSpan span))) :=
    Program.Unused.agreesFrom hw hne
  have hcall := (⟨p, natives, ⟨entry, limit⟩⟩ : Interpreter σ).call_eq_callAt hd args
  have hdirect := (⟨p, natives, ⟨entry, limit⟩⟩ : Interpreter σ).callAt_moved hd limit.toNat args
    d.name.span callSpan h
  have hnested := (⟨p, natives, ⟨w.name, limit + 1⟩⟩ : Interpreter σ).callAt_moved hd limit.toNat
    args d.name.span callSpan h
  rw [run_eq_of_forwarding hargs rfl hsucc hget, ← callAt_eq_of_agreesFrom _ _ hagree, hcall]
  refine returnedBy_of_eq ?_ hdirect.span?_eq
  rw [hnested.eq]
  exact congrArg _ (callAt_deeper p natives (c := ⟨entry, limit⟩) hsucc callee args d.name.span h)

/-- **A call from a script is a call from the host, one level further down.** Let a program get one
more function, under a name that is neither defined nor called in it. The function has no
parameters, and its only statement returns a call of a function of the program with arguments that
are written out. A run that starts with the new function, with one more nested call allowed, does
what the call from the host does.

It leaves the same host behind, executes the same native functions and has the same value. It tells
its own start, then the same events one level further down, and if there is a value, its own return.
It fails exactly if the call does, and with the same error, where the limit is one more; the span is
another one exactly if no script function was entered, so that the call as a whole is to blame. -/
theorem run_forwarding {limit : UInt64} {d : Definition} (natives : Registry σ)
    (hw : p.Unused w.name) (hd : p.get? callee.name = some d)
    (hargs : List.Forall₂ Literal args es) (hlimit : limit.toNat + 1 < UInt64.size)
    (entry : String) (callSpan returnSpan span : Span) (h : σ) :
    let direct : Interpreter σ := ⟨p, natives, ⟨entry, limit⟩⟩
    let nested : Interpreter σ :=
      ⟨p.add (.script (forwarding w callee es callSpan returnSpan span)), natives,
        ⟨w.name, limit + 1⟩⟩
    (direct.call callee.name args h).ReturnedBy w.name d.name.span callSpan (nested.run h) ∧
      nested.runLog h = direct.callLog callee.name args h :=
  ⟨returnedBy_run natives hw hd hargs hlimit entry callSpan returnSpan span h,
    congrArg Prod.snd
      (returnedBy_run natives.recorded hw hd hargs hlimit entry callSpan returnSpan span
        (h, [])).host⟩

/-- The small script gets a function that calls `twice("b")`. With two levels the call goes through,
and with none it fails, where the script blames the call and the host the name of `twice`. -/
theorem run_forwarding_small :
    let start : Identifier := ⟨"start", default⟩
    let twice : Identifier := ⟨"twice", default⟩
    let place : Span := .point ⟨7, 9⟩
    let es : List Expr := [.string "b" default]
    let direct (limit : UInt64) : Interpreter Unit := ⟨.small, .echo, ⟨"main", limit⟩⟩
    let nested (limit : UInt64) : Interpreter Unit :=
      ⟨Program.small.add (.script (forwarding start twice es place default default)), .echo,
        ⟨"start", limit + 1⟩⟩
    Program.small.Unused "start" ∧
      ((direct 2).call "twice" [.string "b"] ()).ReturnedBy "start" default place
        ((nested 2).run ()) ∧
      ((nested 2).run ()).result = .ok (.string "bb") ∧
      ((nested 0).run ()).result = .error (.callDepthExceeded "twice" 1 place) := by
  intro start twice place es direct nested
  have hunused : Program.small.Unused "start" := by
    refine ⟨rfl, fun x f hf c hc => ?_⟩
    simp only [Program.small, Program.ofList, Program.get?, Dictionary.ofList, List.foldl_cons,
      List.foldl_nil, Dictionary.get?_insert, Dictionary.get?_empty] at hf
    split_ifs at hf <;> cases hf <;> revert c <;> decide
  have hd : ∃ d, Program.small.get? twice.name = some d ∧ d.name.span = default := ⟨_, rfl, rfl⟩
  obtain ⟨d, hd, hplace⟩ := hd
  have hargs : List.Forall₂ Literal [.string "b"] es := .cons (.string _ _) .nil
  have htwo := (run_forwarding (w := start) .echo hunused hd hargs
    (show (2 : UInt64).toNat + 1 < _ by decide) "main" place default default ()).1
  have hzero := (run_forwarding (w := start) .echo hunused hd hargs
    (show (0 : UInt64).toNat + 1 < _ by decide) "main" place default default ()).1
  rw [hplace] at htwo hzero
  exact ⟨hunused, htwo, htwo.value _ rfl, (hzero.outermost _ rfl rfl).2⟩

end Interpreter

end Scriptlet
