import Scriptlet.Proofs.Run.Recording
import Scriptlet.Proofs.Run.Rules

/-!
# Calls of imports

A call of an import goes one of two ways. It is refused, and nothing is told and nothing happens to
the host; or the function is there and has as many parameters as the call has arguments, and then it
is called with these arguments. What is refused is looked at in a fixed order: first the module,
then the function in it, and then the number of arguments.

## Main definitions

* `Registry.Refuses` — the errors with which a call of an import is refused
* `Registry.Accepts` — the function that is called otherwise

## Main results

* `callNative_of_refuses`, `callNative_of_accepts` — how the two kinds of calls go
* `Registry.accepts_or_refuses`, `Registry.Refuses.not_accepts` — every call goes just one of them
-/

namespace Scriptlet

variable {σ : Type}

namespace Registry

/-- A call of an import with some number of arguments is refused with an error that blames a span.
What comes first here goes before what comes later. -/
inductive Refuses (r : Registry σ) (i : Import) (args : Nat) (span : Span) : RuntimeError → Prop
  | module (hm : r.module? i.module = none) :
      Refuses r i args span (.unknownModule i.module i.name.name span)
  | function {m} (hm : r.module? i.module = some m) (hf : m.get? i.name.name = none) :
      Refuses r i args span (.unknownNativeFunction i.module i.name.name span)
  | arity {m f} (hm : r.module? i.module = some m) (hf : m.get? i.name.name = some f)
      (ha : f.arity ≠ args) :
      Refuses r i args span (.arityMismatch i.name.name f.arity args span)

/-- The function that an import names is there and has that many parameters. -/
def Accepts (r : Registry σ) (i : Import) (args : Nat) (f : NativeFunction σ) : Prop :=
  r.function? i.module i.name.name = some f ∧ f.arity = args

theorem function?_eq_some {r : Registry σ} {module function : String} {f : NativeFunction σ} :
    r.function? module function = some f ↔
      ∃ m, r.module? module = some m ∧ m.get? function = some f :=
  Option.bind_eq_some_iff

/-- A call of an import is accepted or refused. -/
theorem accepts_or_refuses (r : Registry σ) (i : Import) (args : Nat) (span : Span) :
    (∃ f, r.Accepts i args f) ∨ ∃ e, r.Refuses i args span e := by
  cases hm : r.module? i.module with
  | none => exact .inr ⟨_, .module hm⟩
  | some m =>
    cases hf : m.get? i.name.name with
    | none => exact .inr ⟨_, .function hm hf⟩
    | some f =>
      by_cases ha : f.arity = args
      · exact .inl ⟨f, function?_eq_some.2 ⟨m, hm, hf⟩, ha⟩
      · exact .inr ⟨_, .arity hm hf ha⟩

/-- What is refused is not accepted. -/
theorem Refuses.not_accepts {r : Registry σ} {i : Import} {args : Nat} {span : Span}
    {e : RuntimeError} (h : r.Refuses i args span e) (f : NativeFunction σ) :
    ¬ r.Accepts i args f := by
  rintro ⟨hr, ha⟩
  obtain ⟨m, hm, hf⟩ := function?_eq_some.1 hr
  cases h with
  | module hm' => exact absurd (hm.symm.trans hm') (by simp)
  | function hm' hf' =>
    obtain rfl := Option.some.inj (hm.symm.trans hm')
    exact absurd (hf.symm.trans hf') (by simp)
  | arity hm' hf' ha' =>
    obtain rfl := Option.some.inj (hm.symm.trans hm')
    obtain rfl := Option.some.inj (hf.symm.trans hf')
    exact ha' ha

end Registry

variable {natives : Registry σ} {i : Import} {args : List Value} {span : Span}

/-- A call that is refused does nothing else. -/
theorem callNative_of_refuses {e : RuntimeError} (hr : natives.Refuses i args.length span e)
    (h : σ) : callNative natives i args span h = ⟨.error e, h, []⟩ := by
  rw [callNative]
  cases hr with
  | module hm =>
    rw [hm]
    rfl
  | function hm hf =>
    simp only [hm, hf]
    rfl
  | arity hm hf ha =>
    simp only [hm, hf, checkArity, if_neg ha]
    exact Run.bind_of_error _ rfl

/-- A call that is accepted is told, and the function gets the arguments of the call. -/
theorem callNative_of_accepts {f : NativeFunction σ} (ha : natives.Accepts i args.length f)
    (h : σ) :
    callNative natives i args span h =
      ⟨(f.call args h).1.mapError fun message => .native i.module i.name.name message span,
        (f.call args h).2, [.nativeCall i.module i.name.name]⟩ := by
  obtain ⟨hr, harity⟩ := ha
  obtain ⟨m, hm, hf⟩ := Registry.function?_eq_some.1 hr
  rw [callNative]
  simp only [hm, hf, checkArity, if_pos harity, pure_bind]
  rw [Run.tell_bind, Run.onHost_apply]

end Scriptlet
