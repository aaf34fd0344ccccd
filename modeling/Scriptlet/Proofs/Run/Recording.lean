import Mathlib.Data.List.Infix
import Scriptlet.Proofs.Dictionary
import Scriptlet.Proofs.Run.Simulation

/-!
# Recording what native functions do

The host of a run can be given a log, in which every execution of a native function is written
down with its arguments and its answer. No run can tell: it gives the same result, tells the same
events and leaves the same host behind. So the log of a recorded run is the log of the run.

## Main definitions

* `Execution` — an execution of a native function
* `Interpreter.recorded` — the same interpreter on a host with a log
* `Interpreter.callLog`, `Interpreter.runLog` — the executions of a call and of a run, in order
* `Run.Appends` — a run only adds to the log

## Main results

* `Interpreter.recorded_call`, `Interpreter.recorded_run` — recording changes nothing but the log
-/

namespace Scriptlet

variable {σ α β : Type}

/-! ### Hosts with a log -/

/-- An execution of a native function. -/
structure Execution where
  module : String
  function : String
  args : List Value
  answer : Except String Value

/-- The state of a host, and the executions so far. -/
abbrev Recorded (σ : Type) := σ × List Execution

/-- A native function that writes down each of its executions. -/
def NativeFunction.recorded (module function : String) (f : NativeFunction σ) :
    NativeFunction (Recorded σ) where
  params := f.params
  call args h :=
    let o := f.call args h.1
    (o.1, o.2, h.2 ++ [⟨module, function, args, o.1⟩])

def NativeModule.recorded (module : String) (m : NativeModule σ) : NativeModule (Recorded σ) :=
  ⟨m.name, m.functions.mapNamed (NativeFunction.recorded module)⟩

def Registry.recorded (r : Registry σ) : Registry (Recorded σ) :=
  ⟨r.modules.mapNamed NativeModule.recorded⟩

theorem NativeModule.get?_recorded (m : NativeModule σ) (module function : String) :
    (m.recorded module).get? function =
      (m.get? function).map (NativeFunction.recorded module function) :=
  Dictionary.get?_mapNamed ..

namespace Registry

theorem module?_recorded (r : Registry σ) (module : String) :
    r.recorded.module? module = (r.module? module).map (NativeModule.recorded module) :=
  Dictionary.get?_mapNamed ..

theorem function?_recorded (r : Registry σ) (module function : String) :
    r.recorded.function? module function =
      (r.function? module function).map (NativeFunction.recorded module function) := by
  rw [function?, function?, module?_recorded]
  cases r.module? module with
  | none => rfl
  | some m => exact m.get?_recorded module function

/-- A log is no part of the signature. -/
theorem signature_recorded (r : Registry σ) : r.recorded.signature = r.signature := by
  funext module
  rw [signature, signature, module?_recorded, Option.map_map]
  congr 1
  funext m function
  rw [Function.comp_apply, NativeModule.get?_recorded, Option.map_map]
  rfl

end Registry

namespace Interpreter

variable (it : Interpreter σ)

/-- The same program, on a host with a log. -/
def recorded : Interpreter (Recorded σ) := ⟨it.program, it.natives.recorded, it.config⟩

/-- The executions of native functions in a call, in order. -/
def callLog (name : String) (args : List Value) (h : σ) : List Execution :=
  (it.recorded.call name args (h, [])).host.2

/-- The executions of native functions in a run, in order. -/
def runLog (h : σ) : List Execution := (it.recorded.run (h, [])).host.2

end Interpreter

/-! ### Runs add to the log -/

namespace Run

/-- What a call of the host does, as an outcome. -/
theorem onHost_apply (action : σ → Except String α × σ) (error : String → RuntimeError) (h : σ) :
    onHost action error h = ⟨(action h).1.mapError error, (action h).2, []⟩ := by
  rw [onHost]
  rcases action h with ⟨_ | _, _⟩ <;> rfl

/-- A call of the host fails only with the error that is made of its message. -/
theorem error_of_onHost {action : σ → Except String α × σ} {error : String → RuntimeError} {h : σ}
    {e : RuntimeError} (he : (onHost action error h).result = .error e) :
    ∃ message, e = error message := by
  rw [onHost_apply] at he
  cases ho : (action h).1 with
  | ok a =>
    simp only [ho] at he
    cases he
  | error message =>
    simp only [ho] at he
    exact ⟨message, (Except.error.inj he).symm⟩

/-- A run keeps the executions that are in the log already. -/
def Appends (m : Run (Recorded σ) α) : Prop := ∀ h, h.2 <+: (m h).host.2

theorem Appends.of_step {m : Run (Recorded σ) α} {r : Except RuntimeError α} {es : List Event}
    (hm : ∀ h, m h = ⟨r, h, es⟩) : m.Appends := by
  intro h
  rw [hm]

theorem Appends.onHost (f : NativeFunction σ) (module function : String) (args : List Value)
    (error : String → RuntimeError) :
    (Run.onHost ((f.recorded module function).call args) error).Appends := by
  intro h
  rw [onHost_apply]
  exact List.prefix_append _ _

/-- What a run does after its first part adds to the log of that part. -/
theorem Appends.prefix_bind {m : Run (Recorded σ) α} {f : α → Run (Recorded σ) β}
    (hf : ∀ a, (f a).Appends) (h : Recorded σ) :
    (m h).host.2 <+: ((m >>= f) h).host.2 := by
  rcases ho : m h with ⟨e | a, h₁, es⟩
  · rw [bind_of_error f ho]
  · rw [bind_of_ok f ho]
    exact hf a h₁

theorem Appends.bind {m : Run (Recorded σ) α} {f : α → Run (Recorded σ) β} (hm : m.Appends)
    (hf : ∀ a, (f a).Appends) : (m >>= f).Appends :=
  fun h => (hm h).trans (prefix_bind hf h)

end Run

/-! ### Recording changes nothing else -/

namespace Run

/-- `m'` does what `m` does, whatever its log holds already, and adds to the log. -/
def RecordedBy (Q : α → α → Prop) (m : Run σ α) (m' : Run (Recorded σ) α) : Prop :=
  ∀ h, ∃ r more, Results Q (m h).result r ∧
    ∀ log, m' (h, log) = ⟨r, ((m h).host, log ++ more), (m h).events⟩

variable {Q : α → α → Prop} {m : Run σ α} {m' : Run (Recorded σ) α}

/-- Steps that leave the host alone also leave the log alone. -/
theorem RecordedBy.of_step {r r' : Except RuntimeError α} {es : List Event} (hr : Results Q r r')
    (hm : ∀ h, m h = ⟨r, h, es⟩) (hm' : ∀ h, m' h = ⟨r', h, es⟩) : RecordedBy Q m m' := by
  intro h
  rw [hm]
  refine ⟨r', [], hr, fun log => ?_⟩
  rw [hm', List.append_nil]

theorem RecordedBy.bind {R : β → β → Prop} {f : α → Run σ β} {f' : α → Run (Recorded σ) β}
    (hm : RecordedBy Q m m') (hf : ∀ a b, Q a b → RecordedBy R (f a) (f' b)) :
    RecordedBy R (m >>= f) (m' >>= f') := by
  intro h
  obtain ⟨r, more, hr, hlog⟩ := hm h
  rcases ho : m h with ⟨e | a, h₁, es⟩
  · rw [ho] at hr hlog
    obtain rfl : r = .error e := by cases hr; rfl
    rw [bind_of_error f ho]
    refine ⟨.error e, more, .error e, fun log => ?_⟩
    rw [bind_of_error f' (hlog log)]
  · rw [ho] at hr hlog
    obtain ⟨b, rfl, hab⟩ : ∃ b, r = .ok b ∧ Q a b := by
      cases hr with
      | ok hab => exact ⟨_, rfl, hab⟩
    obtain ⟨r', more', hr', hlog'⟩ := hf a b hab h₁
    rw [bind_of_ok f ho]
    refine ⟨r', more ++ more', hr', fun log => ?_⟩
    rw [bind_of_ok f' (hlog log), hlog' (log ++ more), List.append_assoc]

theorem RecordedBy.appends (h : RecordedBy Q m m') : m'.Appends := by
  rintro ⟨h₀, log⟩
  obtain ⟨r, more, -, hlog⟩ := h h₀
  rw [hlog]
  exact List.prefix_append log more

theorem onHost_recorded (f : NativeFunction σ) (module function : String) (args : List Value)
    (error : String → RuntimeError) :
    RecordedBy Eq (onHost (f.call args) error)
      (onHost ((f.recorded module function).call args) error) := by
  intro h
  refine ⟨_, [⟨module, function, args, (f.call args h).1⟩], results_eq_iff.2 rfl, fun log => ?_⟩
  rw [onHost_apply, onHost_apply]
  rfl

end Run

/-- The comparison of runs with recorded ones. -/
def recording (σ : Type) : Simulation σ (Recorded σ) where
  Values := Eq
  Runs := Run.RecordedBy
  refl _ := rfl
  pure hq := .of_step (.ok hq) (fun _ => rfl) fun _ => rfl
  bind _ hm hf := hm.bind hf
  fail _ := .of_step (.error _) (fun _ => rfl) fun _ => rfl
  operate := by
    rintro a _ b _ op span rfl rfl
    exact .of_step (results_eq_iff.2 rfl) (fun _ => rfl) fun _ => rfl
  declare := by
    rintro v _ name rfl
    exact .of_step (.ok rfl) (fun _ => rfl) fun _ => rfl
  returned := by
    rintro v _ function rfl
    exact .of_step (.ok rfl) (fun _ => rfl) fun _ => rfl
  returnedVoid _ := .of_step (.ok rfl) (fun _ => rfl) fun _ => rfl

theorem recording_callNative (natives : Registry σ) :
    (recording σ).Natives natives natives.recorded := by
  refine @Simulation.natives _ _ (recording σ) _ _ natives.signature_recorded.symm
    (fun _ _ => .of_step (.ok rfl) (fun _ => rfl) fun _ => rfl) ?_
  intro i f f' hf hf' args args' span ha
  obtain rfl : args = args' := List.forall₂_eq_eq_eq.symm ▸ ha
  rw [Registry.function?_recorded, hf] at hf'
  obtain rfl := Option.some.inj hf'
  exact Run.onHost_recorded f _ _ args _

namespace Interpreter

variable (it : Interpreter σ)

theorem recording_invoke (budget : Nat) : (recording σ).Invokes it budget it.recorded budget :=
  @Simulation.invoke_same _ _ (recording σ) it it.recorded rfl rfl
    (fun _ _ _ => .of_step (.error _) (fun _ => rfl) fun _ => rfl)
    (fun _ _ => .of_step (.ok rfl) (fun _ => rfl) fun _ => rfl)
    (recording_callNative it.natives) budget

theorem recording_call (name : String) (args : List Value) :
    (recording σ).Runs Eq (it.call name args) (it.recorded.call name args) :=
  @Simulation.call _ _ (recording σ) it it.recorded rfl (it.recording_invoke _)
    (recording_callNative it.natives) name _ _ (Simulation.values_refl args)

theorem recording_run : (recording σ).Runs Eq it.run it.recorded.run :=
  @Simulation.run _ _ (recording σ) it it.recorded rfl rfl (it.recording_invoke _)

/-- **Recording a call** changes nothing but the log, which gets the executions of the call. -/
theorem recorded_call (name : String) (args : List Value) (h : σ) (log : List Execution) :
    it.recorded.call name args (h, log) =
      ⟨(it.call name args h).result, ((it.call name args h).host, log ++ it.callLog name args h),
        (it.call name args h).events⟩ := by
  obtain ⟨r, more, hr, hlog⟩ := it.recording_call name args h
  rw [callLog, hlog [], hlog log, results_eq_iff.1 hr, List.nil_append]

/-- **Recording a run** changes nothing but the log, which gets the executions of the run. -/
theorem recorded_run (h : σ) (log : List Execution) :
    it.recorded.run (h, log) =
      ⟨(it.run h).result, ((it.run h).host, log ++ it.runLog h), (it.run h).events⟩ := by
  obtain ⟨r, more, hr, hlog⟩ := it.recording_run h
  rw [runLog, hlog [], hlog log, results_eq_iff.1 hr, List.nil_append]

end Interpreter

end Scriptlet
