import Scriptlet.Proofs.Run.Work

/-!
# The contract of native functions

Native functions are called only as they ask to be. The function that is called is the one that the
registry holds under the module and the name of the import, it gets as many arguments as it has
parameters, and these are the values of the arguments of the call in written order. Each execution
is told, and nothing else is told as one. If a native function fails, the run fails there and then,
with its message and with the span of the call.

The log of a recorded run says what was executed. `Interpreter.Calls` says what was asked for. The
contract relates the two in both directions.

## Main definitions

* `Event.nativeCall?` — what is told as an execution
* `Interpreter.KeepsContract` — the contract

## Main results

* `Interpreter.accounts_of_yields` — each execution in the log is one that was asked for
* `Interpreter.contract` — calls and runs keep the contract
-/

namespace Scriptlet

variable {σ α : Type}

/-- The function that a call of a native function is told of. -/
def Event.nativeCall? : Event → Option (String × String)
  | nativeCall module function => some (module, function)
  | _ => none

/-! ### Calls of imports on a host with a log -/

namespace Registry

variable {r : Registry σ} {i : Import} {args : Nat}

theorem Accepts.recorded {f : NativeFunction σ} (h : r.Accepts i args f) :
    r.recorded.Accepts i args (f.recorded i.module i.name.name) :=
  ⟨by rw [function?_recorded, h.1]; rfl, h.2⟩

theorem Refuses.recorded {span : Span} {e : RuntimeError} (h : r.Refuses i args span e) :
    r.recorded.Refuses i args span e := by
  cases h with
  | module hm => exact .module (by rw [module?_recorded, hm]; rfl)
  | function hm hf =>
    refine .function (by rw [module?_recorded, hm]; rfl) ?_
    rw [NativeModule.get?_recorded, hf]
    rfl
  | @arity m f hm hf ha =>
    refine .arity (f := f.recorded i.module i.name.name)
      (by rw [module?_recorded, hm]; rfl) ?_ ha
    rw [NativeModule.get?_recorded, hf]
    rfl

end Registry

namespace Interpreter

variable (it : Interpreter σ)

/-! ### Executions that were asked for -/

/-- Each execution of a log, behind those that came before, was asked for: in the course of some
work an import was called, and what was executed is what it names, with the arguments of this
call. -/
def AskedFor (j : Job × Recorded σ) : (before log : List Execution) → Prop
  | _, [] => True
  | before, x :: log =>
    (∃ i span h f, it.recorded.Calls j i x.args span (h, before) ∧
      it.natives.Accepts i x.args.length f ∧
      x = ⟨i.module, i.name.name, x.args, (f.call x.args h).1⟩) ∧
    AskedFor j (before ++ [x]) log

/-- From one host to another, what was executed was asked for, and is what the events tell. -/
def Accounts (j : Job × Recorded σ) (h h' : Recorded σ) (es : List Event) : Prop :=
  ∃ log, h'.2 = h.2 ++ log ∧ it.AskedFor j h.2 log ∧
    es.filterMap Event.nativeCall? = log.map fun x => (x.module, x.function)

variable {it} {j k : Job × Recorded σ}

theorem askedFor_append {before log log' : List Execution} :
    it.AskedFor j before (log ++ log') ↔
      it.AskedFor j before log ∧ it.AskedFor j (before ++ log) log' := by
  induction log generalizing before with
  | nil => simp [AskedFor]
  | cons x log ih =>
    rw [List.cons_append, AskedFor, ih, AskedFor, List.append_assoc, List.singleton_append,
      and_assoc]

theorem AskedFor.of_does (hj : it.recorded.Does j k) {before log : List Execution}
    (hk : it.AskedFor k before log) : it.AskedFor j before log := by
  induction log generalizing before with
  | nil => trivial
  | cons x log ih =>
    obtain ⟨⟨i, span, h, f, hc, hf⟩, hlog⟩ := hk
    exact ⟨⟨i, span, h, f, hc.of_does hj, hf⟩, ih hlog⟩

namespace Accounts

variable {h h₁ h₂ : Recorded σ} {es es' : List Event}

theorem nil (es : List Event) (hes : es.filterMap Event.nativeCall? = []) :
    it.Accounts j h h es :=
  ⟨[], (List.append_nil _).symm, trivial, hes⟩

theorem append (ha : it.Accounts j h h₁ es) (ha' : it.Accounts j h₁ h₂ es') :
    it.Accounts j h h₂ (es ++ es') := by
  obtain ⟨log, hlog, hasked, hes⟩ := ha
  obtain ⟨log', hlog', hasked', hes'⟩ := ha'
  rw [hlog] at hlog' hasked'
  refine ⟨log ++ log', by rw [hlog', List.append_assoc], askedFor_append.2 ⟨hasked, hasked'⟩, ?_⟩
  rw [List.filterMap_append, hes, hes', List.map_append]

theorem of_does (hj : it.recorded.Does j k) (hk : it.Accounts k h h₁ es) :
    it.Accounts j h h₁ es := by
  obtain ⟨log, hlog, hasked, hes⟩ := hk
  exact ⟨log, hlog, hasked.of_does hj, hes⟩

/-- A call of an import executes the function it names, or nothing. -/
theorem callNative {i : Import} {args : List Value} {span : Span}
    (hc : it.recorded.Calls j i args span h) {o : Outcome (Recorded σ) Value}
    (ho : callNative it.natives.recorded i args span h = o) : it.Accounts j h o.host o.events := by
  subst ho
  rcases it.natives.accepts_or_refuses i args.length span with ⟨f, hf⟩ | ⟨e, he⟩
  · rw [callNative_of_accepts hf.recorded]
    exact ⟨[_], rfl, ⟨⟨i, span, h.1, f, hc, hf, rfl⟩, trivial⟩, rfl⟩
  · rw [callNative_of_refuses he.recorded]
    exact .nil [] rfl

end Accounts

/-- **What is executed in the course of work was asked for**, and is what the events tell. -/
theorem accounts_of_yields {j : Job} {h : Recorded σ} {o : Outcome (Recorded σ) j.Result}
    (ho : it.recorded.Yields j h o) : it.Accounts (j, h) h o.host o.events := by
  induction ho with
  | number | bool | string | identifier | undeclared | arguments_nil | statements_nil | arity
  | limit | parameter | missing | entry_missing | entry_native | entry_invalid => exact .nil _ rfl
  | binary_fails _ ih => exact ih.of_does .lhs
  | binary hl _ ih ih' => exact (ih.of_does .lhs).append (ih'.of_does (.rhs hl))
  | call_fails _ ih => exact ih.of_does .arguments
  | call_unknown _ _ ih => exact ih.of_does .arguments
  | call_native ha hd hn ih =>
    exact (ih.of_does .arguments).append (.callNative (.written .refl ha hd) hn)
  | call_script ha hd _ ih ih' => exact (ih.of_does .arguments).append (ih'.of_does (.callee ha hd))
  | arguments_fails _ ih => exact ih.of_does .head
  | arguments he _ ih ih' => exact (ih.of_does .head).append (ih'.of_does (.tail he))
  | statement_fails _ ih => exact ih.of_does .value
  | @duplicate d function s name value span rest h _ v _ _ _ ih =>
    have hvalue := @Does.value _ it.recorded d function s (.declaration name value span) rest h
    exact (ih.of_does hvalue).append (.nil [.declare name.name v] rfl)
  | @declaration d function s t name value span rest h _ v _ _ hv hs _ ih ih' =>
    have hvalue := @Does.value _ it.recorded d function s (.declaration name value span) rest h
    refine (ih.of_does hvalue).append ?_
    exact .append (.nil [.declare name.name v] rfl) (ih'.of_does (.declared hv hs))
  | @expression d function s value span rest h _ _ _ _ hv _ ih ih' =>
    have hvalue := @Does.value _ it.recorded d function s (.expression value span) rest h
    exact (ih.of_does hvalue).append (ih'.of_does (.next hv))
  | @result d function s value span rest h _ v _ _ ih =>
    have hvalue := @Does.value _ it.recorded d function s (.result value span) rest h
    exact (ih.of_does hvalue).append (.nil [.returned function v] rfl)
  | invocation ha hd hb _ ih =>
    exact (Accounts.nil [.invoke _ _] rfl).append (ih.of_does (.body ha hd hb))
  | native hd hn => exact .callNative (.direct hd) hn
  | script hd _ ih => exact ih.of_does (.call hd)
  | entry hd hp _ ih => exact ih.of_does (.entry hd hp)

/-- An execution in a log was asked for. -/
theorem AskedFor.of_split {before after : List Execution} {x : Execution}
    (h : it.AskedFor j [] (before ++ x :: after)) :
    ∃ i span h f, it.recorded.Calls j i x.args span (h, before) ∧
      it.natives.Accepts i x.args.length f ∧
      x = ⟨i.module, i.name.name, x.args, (f.call x.args h).1⟩ :=
  (askedFor_append.1 h).2.1

/-! ### The contract -/

/-- What holds of the native functions in the course of work on a host, by its outcome and the log
of what was executed. -/
structure KeepsContract (it : Interpreter σ) (j : Job) (h : σ) (o : Outcome σ j.Result)
    (log : List Execution) : Prop where
  /-- Each execution is for a call of an import. The function is the one that the registry holds
  under the module and the name of the import, it has as many parameters as the call has arguments,
  and it gets the arguments of the call on the host of the call. -/
  executed {before after : List Execution} {x : Execution} (hlog : log = before ++ x :: after) :
    ∃ i span h₁ f, it.recorded.Calls (j, (h, [])) i x.args span (h₁, before) ∧
      it.natives.Accepts i x.args.length f ∧
      x = ⟨i.module, i.name.name, x.args, (f.call x.args h₁).1⟩
  /-- The events tell the executions, one by one and in order. -/
  told : o.events.filterMap Event.nativeCall? = log.map fun x => (x.module, x.function)
  /-- A call that is accepted is executed. -/
  accepted {i : Import} {args : List Value} {span : Span} {h₁ : σ} {before : List Execution}
    {f : NativeFunction σ} (hc : it.recorded.Calls (j, (h, [])) i args span (h₁, before))
    (hf : it.natives.Accepts i args.length f) :
    ∃ after, log = before ++ ⟨i.module, i.name.name, args, (f.call args h₁).1⟩ :: after
  /-- If it fails, nothing is done, executed or told after it, and the error has its message and
  blames the span of the call. -/
  failed {i : Import} {args : List Value} {span : Span} {h₁ h₂ : σ} {before : List Execution}
    {f : NativeFunction σ} {message : String}
    (hc : it.recorded.Calls (j, (h, [])) i args span (h₁, before))
    (hf : it.natives.Accepts i args.length f) (hm : f.call args h₁ = (.error message, h₂)) :
    ∃ es, o = ⟨.error (.native i.module i.name.name message span), h₂,
        es ++ [.nativeCall i.module i.name.name]⟩ ∧
      log = before ++ [⟨i.module, i.name.name, args, .error message⟩]
  /-- A call that is refused is not executed, and the error is the first that applies. -/
  refused {i : Import} {args : List Value} {span : Span} {h₁ : σ} {before : List Execution}
    {e : RuntimeError} (hc : it.recorded.Calls (j, (h, [])) i args span (h₁, before))
    (he : it.natives.Refuses i args.length span e) :
    ∃ es, o = ⟨.error e, h₁, es⟩ ∧ log = before

/-- Work keeps the contract. -/
theorem keepsContract {j : Job} {h : σ} {o : Outcome σ j.Result} {log : List Execution}
    (ho : it.recorded.perform j (h, []) = ⟨o.result, (o.host, log), o.events⟩) :
    it.KeepsContract j h o log := by
  obtain ⟨log', rfl, hasked, htold⟩ := accounts_of_yields (it.recorded.yields_iff.2 ho)
  refine ⟨fun hlog => ?_, htold, fun {_ _ _ h₁ before _} hc hf => ?_,
    fun {i args span h₁ h₂ before f message} hc hf hm => ?_,
    fun {i args span h₁ before e} hc he => ?_⟩
  · exact AskedFor.of_split (hlog ▸ hasked)
  · have hprefix := hc.includes.log_prefix
    rw [callNative_of_accepts hf.recorded, ho] at hprefix
    obtain ⟨after, hafter⟩ := hprefix
    exact ⟨after, hafter.symm.trans (List.append_assoc _ _ _)⟩
  · have hcall := @callNative_of_accepts _ _ _ _ span _ hf.recorded (h₁, before)
    simp only [NativeFunction.recorded, hm] at hcall
    obtain ⟨es, hes⟩ := hc.includes.of_error hcall
    rw [ho] at hes
    obtain ⟨r, h', events⟩ := o
    cases hes
    exact ⟨es, rfl, rfl⟩
  · obtain ⟨es, hes⟩ := hc.includes.of_error (callNative_of_refuses he.recorded _)
    rw [ho] at hes
    obtain ⟨r, h', events⟩ := o
    cases hes
    exact ⟨_, rfl, rfl⟩

/-- **Native functions are called only under their contract, and a failure is final**, in every call
and every run of every program on every host. -/
theorem contract (it : Interpreter σ) (h : σ) :
    (∀ name args, it.KeepsContract (.call name args) h (it.call name args h)
      (it.callLog name args h)) ∧
    it.KeepsContract .entry h (it.run h) (it.runLog h) :=
  ⟨fun name args => keepsContract (it.recorded_call name args h []),
    keepsContract (it.recorded_run h [])⟩

/-- If the host of the small script fails, then it was asked once, and that ends the run. -/
theorem contract_small :
    let failing : Registry Nat := .single "host" "get" ⟨["v"], fun _ n => (.error "no", n + 1)⟩
    let it : Interpreter Nat := ⟨.small, failing, default⟩
    it.runLog 3 = [⟨"host", "get", [.string "a"], .error "no"⟩] ∧
      (∃ i span n f, it.recorded.Calls (.entry, (3, [])) i [.string "a"] span (n, []) ∧
        failing.Accepts i 1 f) ∧
      (it.run 3).result = .error (.native "host" "get" "no" default) ∧ (it.run 3).host = 4 := by
  intro failing it
  have hlog : it.runLog 3 = [] ++ ⟨"host", "get", [.string "a"], .error "no"⟩ :: [] := rfl
  obtain ⟨i, span, n, f, hc, hf, -⟩ := (it.contract 3).2.executed hlog
  exact ⟨hlog, ⟨i, span, n, f, hc, hf⟩, rfl, rfl⟩

end Interpreter

end Scriptlet
