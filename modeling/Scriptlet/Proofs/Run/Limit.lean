import Scriptlet.Proofs.Run.Recording

/-!
# Raising the limit of nested calls

A run that did not hit the limit of nested calls does not notice when the limit is raised: it ends
with the same result, on the same host, after the same events and executions. A run that hit the
limit goes on from there, so what it told and what it executed are beginnings of what the run under
the higher limit tells and executes.

In the proof, the run under the higher limit has `d' - d` more nested calls left at every call.

## Main definitions

* `Outcome.Exceeded` — a run hit the limit
* `RaisesTo` — how outcomes and logs compare when the limit is raised

## Main results

* `Interpreter.raisesTo` — raising the limit only matters to runs that hit it
-/

namespace Scriptlet

variable {σ α β : Type}

/-! ### Hitting the limit -/

/-- A run ended because calls nested too deep. -/
def Outcome.Exceeded (o : Outcome σ α) : Prop :=
  ∃ name limit span, o.result = .error (.callDepthExceeded name limit span)

theorem Outcome.not_exceeded_ok {a : α} {h : σ} {es : List Event} :
    ¬ Outcome.Exceeded ⟨.ok a, h, es⟩ := by
  rintro ⟨_, _, _, h⟩
  cases h

theorem Outcome.exceeded_error_iff {e : RuntimeError} {h : σ} {es : List Event} :
    Outcome.Exceeded (⟨.error e, h, es⟩ : Outcome σ α) ↔
      ∃ name limit span, e = .callDepthExceeded name limit span := by
  simp [Outcome.Exceeded]

/-- How an outcome and its log may change when the limit is raised. -/
structure RaisesTo (o : Outcome σ Value) (log : List Execution) (o' : Outcome σ Value)
    (log' : List Execution) : Prop where
  same : ¬ o.Exceeded → o' = o ∧ log' = log
  longer : o.Exceeded → log <+: log' ∧ o.events <+: o'.events

/-! ### Runs that go on -/

theorem Run.events_prefix_bind (m : Run σ α) (f : α → Run σ β) (h : σ) :
    (m h).events <+: ((m >>= f) h).events := by
  rcases ho : m h with ⟨e | a, h₁, es⟩
  · rw [bind_of_error f ho]
  · rw [bind_of_ok f ho]
    exact List.prefix_append _ _

/-- `m'` does what `m` does, but where `m` hits the limit, `m'` may go on. -/
structure Run.GoesOn (Q : α → α → Prop) (m m' : Run (Recorded σ) α) : Prop where
  appends : m'.Appends
  same : ∀ h, ¬ (m h).Exceeded →
    ∃ r, Results Q (m h).result r ∧ m' h = ⟨r, (m h).host, (m h).events⟩
  longer : ∀ h, (m h).Exceeded →
    (m h).host.2 <+: (m' h).host.2 ∧ (m h).events <+: (m' h).events

namespace Run.GoesOn

theorem of_step {Q : α → α → Prop} {m m' : Run (Recorded σ) α} {r r' : Except RuntimeError α}
    {es : List Event} (hm : ∀ h, m h = ⟨r, h, es⟩) (hm' : ∀ h, m' h = ⟨r', h, es⟩)
    (hr : Results Q r r') : Run.GoesOn Q m m' where
  appends := .of_step hm'
  same h _ := by
    rw [hm, hm']
    exact ⟨r', hr, rfl⟩
  longer h _ := by
    rw [hm, hm']
    exact ⟨List.prefix_rfl, List.prefix_rfl⟩

/-- A run that does not change goes on from nowhere. -/
theorem of_appends {m : Run (Recorded σ) α} (hm : m.Appends) : Run.GoesOn Eq m m where
  appends := hm
  same _ _ := ⟨_, results_eq_iff.2 rfl, rfl⟩
  longer _ _ := ⟨List.prefix_rfl, List.prefix_rfl⟩

/-- From where the limit was hit, a run may go on in any way. -/
theorem of_exceeded {Q : α → α → Prop} (name : String) (limit : Nat) (span : Span)
    {m' : Run (Recorded σ) α} (hm' : m'.Appends) :
    Run.GoesOn Q (Run.fail (.callDepthExceeded name limit span)) m' where
  appends := hm'
  same _ hn := absurd ⟨name, limit, span, rfl⟩ hn
  longer h _ := ⟨hm' h, List.nil_prefix⟩

theorem bind {Q : α → α → Prop} {R : β → β → Prop} {m m' : Run (Recorded σ) α}
    {f f' : α → Run (Recorded σ) β} (hQ : ∀ a, Q a a) (hm : Run.GoesOn Q m m')
    (hf : ∀ a b, Q a b → Run.GoesOn R (f a) (f' b)) : Run.GoesOn R (m >>= f) (m' >>= f') := by
  have happ : ∀ a, (f' a).Appends := fun a => (hf a a (hQ a)).appends
  -- if the first part ends with a value, the second one starts from the same state
  have hok : ∀ {h a h₁ es}, m h = ⟨.ok a, h₁, es⟩ → ∃ b, Q a b ∧ m' h = ⟨.ok b, h₁, es⟩ := by
    intro h a h₁ es ho
    obtain ⟨r, hr, ho'⟩ := hm.same h (ho ▸ Outcome.not_exceeded_ok)
    rw [ho] at hr ho'
    cases hr with
    | ok hab => exact ⟨_, hab, ho'⟩
  refine ⟨hm.appends.bind happ, fun h hn => ?_, fun h hx => ?_⟩
  · rcases ho : m h with ⟨e | a, h₁, es⟩
    · rw [bind_of_error f ho, Outcome.exceeded_error_iff] at hn
      obtain ⟨r, hr, ho'⟩ := hm.same h (ho ▸ mt Outcome.exceeded_error_iff.1 hn)
      rw [ho] at hr ho'
      rw [bind_of_error f ho]
      cases hr with
      | error e => exact ⟨.error e, .error e, bind_of_error f' ho'⟩
    · obtain ⟨b, hab, ho'⟩ := hok ho
      rw [bind_of_ok f ho] at hn
      obtain ⟨r, hr, hf'⟩ := (hf a b hab).same h₁ hn
      rw [bind_of_ok f ho, bind_of_ok f' ho', hf']
      exact ⟨r, hr, rfl⟩
  · rcases ho : m h with ⟨e | a, h₁, es⟩
    · rw [bind_of_error f ho, Outcome.exceeded_error_iff] at hx
      have hlong := hm.longer h (ho ▸ Outcome.exceeded_error_iff.2 hx)
      rw [ho] at hlong
      rw [bind_of_error f ho]
      exact ⟨hlong.1.trans (Appends.prefix_bind happ h),
        hlong.2.trans (events_prefix_bind m' f' h)⟩
    · obtain ⟨b, hab, ho'⟩ := hok ho
      rw [bind_of_ok f ho] at hx
      obtain ⟨hlog, he⟩ := (hf a b hab).longer h₁ hx
      rw [bind_of_ok f ho, bind_of_ok f' ho']
      exact ⟨hlog, (List.prefix_append_right_inj es).2 he⟩

end Run.GoesOn

/-- The comparison of runs with those under a higher limit. -/
def goingOn (σ : Type) : Simulation (Recorded σ) (Recorded σ) where
  Values := Eq
  Runs := Run.GoesOn
  refl _ := rfl
  pure hq := .of_step (fun _ => rfl) (fun _ => rfl) (.ok hq)
  bind := .bind
  fail _ := .of_step (fun _ => rfl) (fun _ => rfl) (.error _)
  operate := by
    rintro a _ b _ op span rfl rfl
    exact .of_appends (.of_step fun _ => rfl)
  declare := by
    rintro v _ name rfl
    exact .of_appends (.of_step fun _ => rfl)
  returned := by
    rintro v _ function rfl
    exact .of_appends (.of_step fun _ => rfl)
  returnedVoid _ := .of_appends (.of_step fun _ => rfl)

theorem goingOn_callNative (natives : Registry σ) :
    (goingOn σ).Natives natives.recorded natives.recorded := by
  intro i args args' span ha
  obtain rfl : args = args' := List.forall₂_eq_eq_eq.symm ▸ ha
  exact .of_appends (recording_callNative natives i span ha).appends

namespace Interpreter

variable (it : Interpreter σ)

/-- The same program on the same host, with another limit of nested calls. -/
def withMaxCallDepth (limit : UInt64) : Interpreter σ :=
  { it with config := it.config.withMaxCallDepth limit }

/-- A wrong number of arguments is noticed before anything else, even before the limit. -/
theorem invoke_of_arity_ne {f : ScriptFunction} {args : List Value} (h : f.arity ≠ args.length)
    (budget : Nat) (span : Span) :
    it.invoke budget f args span =
      Run.fail (.arityMismatch f.name.name f.arity args.length span) := by
  cases budget with
  | zero => rw [invoke_zero, checkArity, if_neg h]; rfl
  | succ budget => rw [invoke_succ, enter, checkArity, if_neg h]; rfl

theorem goingOn_invoke {d d' : UInt64} (hd : d ≤ d') (budget : Nat) :
    (goingOn σ).Invokes (it.withMaxCallDepth d).recorded budget
      (it.withMaxCallDepth d').recorded (budget + (d'.toNat - d.toNat)) := by
  refine @Simulation.invoke _ _ (goingOn σ) (it.withMaxCallDepth d).recorded
    (it.withMaxCallDepth d').recorded _ rfl ?_ ?_ (goingOn_callNative it.natives) budget
  · intro f args args' span ha
    obtain rfl : args = args' := List.forall₂_eq_eq_eq.symm ▸ ha
    by_cases harity : f.arity = args.length
    · rw [invoke_zero, checkArity, if_pos harity]
      exact .of_exceeded _ _ _ ((it.withMaxCallDepth d').recording_invoke _ f span ha).appends
    · rw [invoke_of_arity_ne _ harity, invoke_of_arity_ne _ harity]
      exact (goingOn σ).fail rfl
  · intro name budget
    have hdepth : d'.toNat - (budget + (d'.toNat - d.toNat)) = d.toNat - budget := by
      have := UInt64.le_iff_toNat_le.1 hd
      omega
    show Run.GoesOn Eq (Run.tell (.invoke name (d.toNat - budget)))
      (Run.tell (.invoke name (d'.toNat - (budget + (d'.toNat - d.toNat)))))
    rw [hdepth]
    exact .of_appends (.of_step fun _ => rfl)

/-- Recorded runs, one of which goes on, are the recordings of such runs. -/
theorem raisesTo_of_recorded {o o' : Outcome σ Value} {log log' : List Execution}
    (hsame : ¬ o.Exceeded → ∃ r, Results Eq o.result r ∧
      (⟨o'.result, (o'.host, log'), o'.events⟩ : Outcome (Recorded σ) Value) =
        ⟨r, (o.host, log), o.events⟩)
    (hlonger : o.Exceeded → log <+: log' ∧ o.events <+: o'.events) : RaisesTo o log o' log' where
  same hn := by
    obtain ⟨r, hr, ho⟩ := hsame hn
    obtain rfl := results_eq_iff.1 hr
    obtain ⟨result, host, events⟩ := o
    obtain ⟨result', host', events'⟩ := o'
    simp only [Outcome.mk.injEq, Prod.mk.injEq] at ho
    obtain ⟨rfl, ⟨rfl, rfl⟩, rfl⟩ := ho
    exact ⟨rfl, rfl⟩
  longer := hlonger

/-- **Raising the limit of nested calls only matters to runs that hit it.** Any other call or run
has the same outcome and the same log of native executions. One that hit the limit has told and
executed the beginning of what it tells and executes under the higher limit. -/
theorem raisesTo {d d' : UInt64} (hd : d ≤ d') (h : σ) :
    (∀ (name : String) (args : List Value),
      RaisesTo ((it.withMaxCallDepth d).call name args h)
        ((it.withMaxCallDepth d).callLog name args h)
        ((it.withMaxCallDepth d').call name args h)
        ((it.withMaxCallDepth d').callLog name args h)) ∧
    RaisesTo ((it.withMaxCallDepth d).run h) ((it.withMaxCallDepth d).runLog h)
      ((it.withMaxCallDepth d').run h) ((it.withMaxCallDepth d').runLog h) := by
  have hinvoke : (goingOn σ).Invokes (it.withMaxCallDepth d).recorded d.toNat
      (it.withMaxCallDepth d').recorded d'.toNat := by
    have := it.goingOn_invoke hd d.toNat
    rwa [Nat.add_sub_cancel' (UInt64.le_iff_toNat_le.1 hd)] at this
  constructor
  · intro name args
    have hcall := @Simulation.call _ _ (goingOn σ) (it.withMaxCallDepth d).recorded
      (it.withMaxCallDepth d').recorded rfl hinvoke (goingOn_callNative it.natives) name _ _
      (Simulation.values_refl args)
    have hsame := hcall.same (h, [])
    have hlonger := hcall.longer (h, [])
    rw [recorded_call, recorded_call] at hsame hlonger
    exact raisesTo_of_recorded hsame hlonger
  · have hrun := @Simulation.run _ _ (goingOn σ) (it.withMaxCallDepth d).recorded
      (it.withMaxCallDepth d').recorded rfl rfl hinvoke
    have hsame := hrun.same (h, [])
    have hlonger := hrun.longer (h, [])
    rw [recorded_run, recorded_run] at hsame hlonger
    exact raisesTo_of_recorded hsame hlonger

/-- A single level is too little for the small script, two are enough, and more change nothing. -/
theorem raisesTo_small :
    let it : Interpreter Unit := ⟨.small, .echo, default⟩
    ((it.withMaxCallDepth 1).run ()).Exceeded ∧
      (it.withMaxCallDepth 1).runLog () <+: (it.withMaxCallDepth 2).runLog () ∧
      ((it.withMaxCallDepth 1).run ()).events <+: ((it.withMaxCallDepth 2).run ()).events ∧
      (it.withMaxCallDepth 9).run () = (it.withMaxCallDepth 2).run () := by
  intro it
  have hone : ((it.withMaxCallDepth 1).run ()).Exceeded := ⟨_, _, _, rfl⟩
  have htwo : ¬ ((it.withMaxCallDepth 2).run ()).Exceeded := Outcome.not_exceeded_ok
  have hup := (it.raisesTo (show (1 : UInt64) ≤ 2 by decide) ()).2
  have hsame := (it.raisesTo (show (2 : UInt64) ≤ 9 by decide) ()).2
  exact ⟨hone, (hup.longer hone).1, (hup.longer hone).2, (hsame.same htwo).1⟩

end Interpreter

end Scriptlet
