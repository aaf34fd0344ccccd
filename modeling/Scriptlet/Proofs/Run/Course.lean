import Scriptlet.Proofs.Run.Kinds
import Scriptlet.Proofs.Run.Limit

/-!
# Values do not steer a run

A script has no branches, so its values decide neither which functions it calls nor which variables
it binds. All they can do is to stop it: an operator may not take the kinds of its operands, and a
native function may fail. Two runs of one program, with arguments and hosts that have nothing to do
with each other, tell the same events but for values until one of them is stopped in this way.

The comparison below therefore has three cases. Either neither run was stopped and the two are
alike, or one of them was stopped, and then it has told a beginning of what the other tells. It is
not the comparison by kinds with its hypothesis dropped: there a run is never stopped alone.

## Main definitions

* `RuntimeError.isOfValues`, `Outcome.Stopped` — a value stopped the run
* `Outcome.skeleton` — the events of a run without their values
* `Outcome.SameCourse` — how two runs compare that differ in values only

## Main results

* `Interpreter.sameCourse` — values do not steer a run
-/

namespace Scriptlet

variable {σ τ α β : Type}

/-- Whether an error comes from values: from operands of the wrong kinds, or from the host. -/
def RuntimeError.isOfValues : RuntimeError → Bool
  | typeMismatch .. | native .. => true
  | _ => false

namespace Outcome

/-- The events of a run without the values that they show. -/
def skeleton (o : Outcome σ α) : List Event := o.events.map Event.withoutValue

/-- A value stopped the run. -/
def Stopped (o : Outcome σ α) : Prop := ∃ e, o.result = .error e ∧ e.isOfValues

/-- Two runs that differ in values only. What one of them tells is a beginning of what the other
tells. If no value stopped them, they tell the same, and both have a value or fail with the same
error. -/
structure SameCourse (o : Outcome σ Value) (o' : Outcome τ Value) : Prop where
  comparable : o.skeleton <+: o'.skeleton ∨ o'.skeleton <+: o.skeleton
  same : ¬ o.Stopped → ¬ o'.Stopped →
    o.skeleton = o'.skeleton ∧ Results (fun _ _ => True) o.result o'.result

/-- Two outcomes that are alike, unless a value stopped one of them. -/
inductive Parallel (Q : α → β → Prop) (o : Outcome σ α) (o' : Outcome τ β) : Prop
  | alike (hr : Results Q o.result o'.result) (he : o.skeleton = o'.skeleton)
  | left (ho : o.Stopped) (he : o.skeleton <+: o'.skeleton)
  | right (ho : o'.Stopped) (he : o'.skeleton <+: o.skeleton)

variable {Q : α → β → Prop}

theorem skeleton_append (r : Except RuntimeError α) (h : σ) (es es' : List Event) :
    (⟨r, h, es ++ es'⟩ : Outcome σ α).skeleton =
      es.map Event.withoutValue ++ es'.map Event.withoutValue :=
  List.map_append

/-- What was told before, if it is the same on both sides, does not matter. -/
theorem Parallel.after {o : Outcome σ α} {o' : Outcome τ β} {es es' : List Event}
    (h : Parallel Q o o') (he : es.map Event.withoutValue = es'.map Event.withoutValue) :
    Parallel Q ⟨o.result, o.host, es ++ o.events⟩ ⟨o'.result, o'.host, es' ++ o'.events⟩ := by
  cases h with
  | alike hr hskeleton =>
    refine .alike hr ?_
    rw [skeleton_append, skeleton_append, he]
    exact congrArg (_ ++ ·) hskeleton
  | left ho hprefix =>
    refine .left ho ?_
    rw [skeleton_append, skeleton_append, he]
    exact (List.prefix_append_right_inj _).2 hprefix
  | right ho hprefix =>
    refine .right ho ?_
    rw [skeleton_append, skeleton_append, he]
    exact (List.prefix_append_right_inj _).2 hprefix

theorem SameCourse.of_parallel {Q : Value → Value → Prop} {o : Outcome σ Value}
    {o' : Outcome τ Value} (h : Parallel Q o o') : o.SameCourse o' := by
  cases h with
  | alike hr he =>
    refine ⟨.inl (he ▸ List.prefix_rfl), fun _ _ => ⟨he, ?_⟩⟩
    revert hr
    generalize o.result = r
    generalize o'.result = r'
    rintro (_ | e)
    · exact .ok trivial
    · exact .error e
  | left ho he => exact ⟨.inl he, fun hn => absurd ho hn⟩
  | right ho he => exact ⟨.inr he, fun _ hn => absurd ho hn⟩

end Outcome

namespace Run

/-- Runs that are alike from any two states of their hosts, unless a value stops one of them. -/
def Parallel (Q : α → β → Prop) (m : Run σ α) (m' : Run τ β) : Prop :=
  ∀ h h', Outcome.Parallel Q (m h) (m' h')

theorem skeleton_prefix_bind (m : Run σ α) (f : α → Run σ β) (h : σ) :
    (m h).skeleton <+: ((m >>= f) h).skeleton :=
  (events_prefix_bind m f h).map Event.withoutValue

/-- Nothing follows a run that a value stopped. -/
theorem stopped_bind {m : Run σ α} {h : σ} (f : α → Run σ β) (ho : (m h).Stopped) :
    ((m >>= f) h).Stopped ∧ ((m >>= f) h).skeleton = (m h).skeleton := by
  obtain ⟨e, hr, he⟩ := ho
  rcases ho : m h with ⟨r, h₁, es⟩
  rw [ho] at hr
  obtain rfl : r = .error e := hr
  rw [bind_of_error f ho]
  exact ⟨⟨e, rfl, he⟩, rfl⟩

namespace Parallel

variable {Q : α → β → Prop}

theorem of_step {m : Run σ α} {m' : Run τ β} {r : Except RuntimeError α}
    {r' : Except RuntimeError β} {es es' : List Event} (hm : ∀ h, m h = ⟨r, h, es⟩)
    (hm' : ∀ h, m' h = ⟨r', h, es'⟩) (hr : Results Q r r')
    (he : es.map Event.withoutValue = es'.map Event.withoutValue) : Parallel Q m m' := by
  intro h h'
  rw [hm, hm']
  exact .alike hr he

theorem tell {e e' : Event} (h : e.withoutValue = e'.withoutValue) :
    Parallel (σ := σ) (τ := τ) Eq (Run.tell e) (Run.tell e') :=
  of_step (fun _ => rfl) (fun _ => rfl) (.ok rfl) (congrArg ([·]) h)

theorem fail (e : RuntimeError) :
    Parallel (σ := σ) (τ := τ) Q (Run.fail e) (Run.fail e) :=
  of_step (fun _ => rfl) (fun _ => rfl) (.error e) rfl

/-- Results that are values, or errors that come from values, are alike in this sense. -/
theorem of_results {m : Run σ α} {m' : Run τ β} (hQ : ∀ a b, Q a b)
    (hm : ∀ h, (m h).events = [] ∧ ∀ e, (m h).result = .error e → e.isOfValues)
    (hm' : ∀ h, (m' h).events = [] ∧ ∀ e, (m' h).result = .error e → e.isOfValues) :
    Parallel Q m m' := by
  intro h h'
  obtain ⟨he, hr⟩ := hm h
  obtain ⟨he', hr'⟩ := hm' h'
  have hskeleton : (m h).skeleton = [] := congrArg (List.map _) he
  have hskeleton' : (m' h').skeleton = [] := congrArg (List.map _) he'
  cases ho : (m h).result with
  | error e => exact .left ⟨e, ho, hr e ho⟩ (hskeleton ▸ List.nil_prefix)
  | ok a =>
    cases ho' : (m' h').result with
    | error e => exact .right ⟨e, ho', hr' e ho'⟩ (hskeleton' ▸ List.nil_prefix)
    | ok b =>
      refine .alike ?_ (hskeleton.trans hskeleton'.symm)
      rw [ho, ho']
      exact .ok (hQ a b)

theorem bind {Q : α → α → Prop} {R : β → β → Prop} {m : Run σ α} {m' : Run τ α}
    {f : α → Run σ β} {f' : α → Run τ β} (hm : Parallel Q m m')
    (hf : ∀ a b, Q a b → Parallel R (f a) (f' b)) : Parallel R (m >>= f) (m' >>= f') := by
  intro h h'
  cases hm h h' with
  | alike hr he =>
    rcases ho : m h with ⟨r, h₁, es⟩
    rcases ho' : m' h' with ⟨r', h₁', es'⟩
    rw [ho, ho'] at hr he
    cases hr with
    | error e =>
      rw [bind_of_error f ho, bind_of_error f' ho']
      exact .alike (.error e) he
    | @ok a b hab =>
      rw [bind_of_ok f ho, bind_of_ok f' ho']
      exact (hf a b hab h₁ h₁').after he
  | left ho he =>
    -- the first run is over, and the second one only tells more
    obtain ⟨hstop, hskeleton⟩ := stopped_bind f ho
    exact .left hstop (hskeleton ▸ he.trans (skeleton_prefix_bind m' f' h'))
  | right ho he =>
    obtain ⟨hstop, hskeleton⟩ := stopped_bind f' ho
    exact .right hstop (hskeleton ▸ he.trans (skeleton_prefix_bind m f h))

end Parallel

end Run

theorem Value.isOfValues_of_applyAt {op : Operator} {a b : Value} {span : Span} {e : RuntimeError}
    (h : Value.applyAt op a b span = .error e) : e.isOfValues := by
  obtain rfl := error_of_applyAt h
  rfl

/-- The comparison of runs with values that have nothing to do with each other. -/
def course (σ τ : Type) : Simulation σ τ where
  Values _ _ := True
  Runs := Run.Parallel
  refl _ := trivial
  pure hq := .of_step (fun _ => rfl) (fun _ => rfl) (.ok hq) rfl
  bind _ hm hf := hm.bind hf
  fail _ := .fail _
  operate _ _ _ _ := .of_results (fun _ _ => trivial)
    (fun _ => ⟨rfl, fun _ => Value.isOfValues_of_applyAt⟩)
    (fun _ => ⟨rfl, fun _ => Value.isOfValues_of_applyAt⟩)
  declare _ _ := .tell rfl
  returned _ _ := .tell rfl
  returnedVoid _ := .tell rfl

theorem Run.isOfValues_of_onHost {action : σ → Except String α × σ}
    {error : String → RuntimeError} (he : ∀ message, (error message).isOfValues) (h : σ) :
    (Run.onHost action error h).events = [] ∧
      ∀ e, (Run.onHost action error h).result = .error e → e.isOfValues := by
  refine ⟨by rw [onHost_apply], fun e hr => ?_⟩
  obtain ⟨message, rfl⟩ := Run.error_of_onHost hr
  exact he message

theorem course_callNative {natives : Registry σ} {natives' : Registry τ}
    (hs : natives.signature = natives'.signature) : (course σ τ).Natives natives natives' := by
  refine @Simulation.natives _ _ (course σ τ) _ _ hs (fun _ _ => .tell rfl) ?_
  intro i f f' _ _ args args' span _
  exact .of_results (fun _ _ => trivial) (Run.isOfValues_of_onHost fun _ => rfl)
    (Run.isOfValues_of_onHost fun _ => rfl)

namespace Interpreter

theorem course_invoke (p : Program) (c : Config) {natives : Registry σ} {natives' : Registry τ}
    (hs : natives.signature = natives'.signature) (budget : Nat) :
    (course σ τ).Invokes ⟨p, natives, c⟩ budget ⟨p, natives', c⟩ budget :=
  @Simulation.invoke_same _ _ (course σ τ) ⟨p, natives, c⟩ ⟨p, natives', c⟩ rfl rfl
    (fun _ _ _ => .fail _) (fun _ _ => .tell rfl) (course_callNative hs) budget

/-- **Values do not steer a run.** Take two calls of one function of a program, with as many
arguments and on registries with the same functions, which may otherwise do what they like. Without
the values, the events of one call are a beginning of those of the other. If no value stopped
either, they have the same events and both end with a value or with the same error. So it is with
two runs. -/
theorem sameCourse (p : Program) (c : Config) {natives : Registry σ} {natives' : Registry τ}
    (hs : natives.signature = natives'.signature) (h : σ) (h' : τ) :
    (∀ (name : String) (args args' : List Value), args.length = args'.length →
      (call ⟨p, natives, c⟩ name args h).SameCourse (call ⟨p, natives', c⟩ name args' h')) ∧
    (run ⟨p, natives, c⟩ h).SameCourse (run ⟨p, natives', c⟩ h') := by
  constructor
  · intro name args args' hlen
    have hargs : List.Forall₂ (course σ τ).Values args args' :=
      List.forall₂_iff_get.2 ⟨hlen, fun _ _ _ => trivial⟩
    have hcall := @Simulation.call _ _ (course σ τ) ⟨p, natives, c⟩ ⟨p, natives', c⟩ rfl
      (course_invoke p c hs _) (course_callNative hs) name _ _ hargs
    exact .of_parallel (hcall h h')
  · have hrun := @Simulation.run _ _ (course σ τ) ⟨p, natives, c⟩ ⟨p, natives', c⟩ rfl rfl
      (course_invoke p c hs _)
    exact .of_parallel (hrun h h')

/-- A host that gives back what it gets, and one that fails and stops the run with it. -/
theorem sameCourse_small :
    let broken : Registry Nat := .single "host" "get" ⟨["v"], fun _ n => (.error "no", n + 1)⟩
    (call ⟨.small, .echo, default⟩ "twice" [.string "a"] ()).SameCourse
      (call ⟨.small, broken, default⟩ "twice" [.bool true] 5) ∧
    (run ⟨.small, .echo, default⟩ ()).SameCourse (run ⟨.small, broken, default⟩ 5) := by
  intro broken
  have hs : Registry.echo.signature = broken.signature := Registry.signature_single _ _ rfl
  have h := sameCourse .small default hs () 5
  exact ⟨h.1 "twice" [.string "a"] [.bool true] rfl, h.2⟩

end Interpreter

end Scriptlet
