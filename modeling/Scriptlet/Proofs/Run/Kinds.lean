import Scriptlet.Proofs.Run.Recording

/-!
# Runs depend on kinds alone

What a run does depends on its values through their kinds only. Two runs of one program may have
different arguments and different hosts: as long as the arguments are of the same kinds, and native
functions give values of the same kinds or fail with the same messages, the runs call the same
functions, bind the same variables, and end with values of the same kind or with the same error.

The logs of the two runs are compared execution by execution, as far as both go: nothing is assumed
of an execution that has no counterpart in the other log. The proof shows on the way that there is
none.

## Main definitions

* `Event.withoutValue`, `Outcome.SameInKind` — what is left of a run without its values
* `AgreeInKind` — corresponding executions answer with values of one kind or the same message

## Main results

* `Value.kind_operate?` — the kind of an operator's value
* `Interpreter.sameInKind` — runs depend on kinds alone
-/

namespace Scriptlet

variable {σ τ α β : Type}

/-! ### Values without their content -/

/-- The kind of an operator's value, by the kinds of its operands. -/
def Value.Kind.operate? (op : Operator) (a b : Value.Kind) : Option Value.Kind :=
  match op with
  | .eq | .notEq => some .bool
  | .add => if a = b ∧ (a = .number ∨ a = .string) then some a else none
  | .sub | .mul | .div => if a = .number ∧ b = .number then some .number else none

theorem Value.kind_operate? (op : Operator) (a b : Value) :
    (Value.operate? op a b).map Value.kind = Value.Kind.operate? op a.kind b.kind := by
  cases op <;> cases a <;> cases b <;> rfl

theorem Value.applyAt_kind {a a' b b' : Value} (ha : a.kind = a'.kind) (hb : b.kind = b'.kind)
    (op : Operator) (span : Span) :
    Results (fun v w => v.kind = w.kind) (Value.applyAt op a b span)
      (Value.applyAt op a' b' span) := by
  have hk : (Value.operate? op a b).map Value.kind = (Value.operate? op a' b').map Value.kind := by
    rw [kind_operate?, kind_operate?, ha, hb]
  rw [applyAt, applyAt, ha, hb]
  cases hv : Value.operate? op a b with
  | none =>
    rw [hv, Option.map_none, eq_comm, Option.map_eq_none_iff] at hk
    rw [hk]
    exact .error _
  | some v =>
    rw [hv, Option.map_some, eq_comm, Option.map_eq_some_iff] at hk
    obtain ⟨w, hw, hvw⟩ := hk
    rw [hw]
    exact .ok hvw.symm

/-- An event without the value that it shows. -/
def Event.withoutValue : Event → Event
  | .declare name _ => .declare name .void
  | .returned function _ => .returned function .void
  | e => e

/-- Two runs that tell the same events but for values, and that end with values of one kind or with
the same error. -/
structure Outcome.SameInKind (o : Outcome σ Value) (o' : Outcome τ Value) : Prop where
  events : o.events.map Event.withoutValue = o'.events.map Event.withoutValue
  result : o.result.map Value.kind = o'.result.map Value.kind

/-! ### Executions that agree -/

/-- The kind of the answer, or the message. -/
def Execution.answerKind (x : Execution) : Except String Value.Kind := x.answer.map Value.kind

/-- As far as both logs go, executions at the same place answer with values of one kind or fail
with the same message. -/
def AgreeInKind (log log' : List Execution) : Prop :=
  ∀ (i : Nat) (x x' : Execution), log[i]? = some x → log'[i]? = some x' →
    x.answerKind = x'.answerKind

theorem AgreeInKind.of_prefix {log log₁ log' log₁' : List Execution} (h : AgreeInKind log log')
    (hlog : log₁ <+: log) (hlog' : log₁' <+: log') : AgreeInKind log₁ log₁' := by
  obtain ⟨more, rfl⟩ := hlog
  obtain ⟨more', rfl⟩ := hlog'
  intro i x x' hx hx'
  refine h i x x' ?_ ?_
  · rw [List.getElem?_append_left (List.getElem?_eq_some_iff.1 hx).1, hx]
  · rw [List.getElem?_append_left (List.getElem?_eq_some_iff.1 hx').1, hx']

/-- The next executions agree if those before do and all do together. -/
theorem AgreeInKind.last {log log' : List Execution} {x x' : Execution}
    (hk : log.map Execution.answerKind = log'.map Execution.answerKind)
    (h : AgreeInKind (log ++ [x]) (log' ++ [x'])) : x.answerKind = x'.answerKind := by
  have hlen : log.length = log'.length := by
    simpa only [List.length_map] using congrArg List.length hk
  refine h log.length x x' List.getElem?_concat_length ?_
  rw [hlen]
  exact List.getElem?_concat_length

theorem agreeInKind_of_eq {log log' : List Execution}
    (h : log.map Execution.answerKind = log'.map Execution.answerKind) : AgreeInKind log log' := by
  intro i x x' hx hx'
  have hi := congrArg (·[i]?) h
  simpa [hx, hx'] using hi

/-! ### Registries of one signature -/

theorem Registry.signature_single (module function : String) {f : NativeFunction σ}
    {f' : NativeFunction τ} (h : f.arity = f'.arity) :
    (single module function f).signature = (single module function f').signature := by
  have hfunctions : ∀ (υ : Type) (g : NativeFunction υ) (x : String),
      (((NativeModule.named module).withFunction function g).get? x).map NativeFunction.arity =
        if x = function then some g.arity else none := by
    intro υ g x
    show Option.map _ (Dictionary.get? (Dictionary.insert ∅ function g) x) = _
    rw [Dictionary.get?_insert]
    split <;> rfl
  have hmodules : ∀ (υ : Type) (g : NativeFunction υ), (single module function g).signature =
      fun x => if x = module then some fun y => if y = function then some g.arity else none
        else none := by
    intro υ g
    funext x
    show Option.map _ (Dictionary.get? (Dictionary.insert ∅ module _) x) = _
    rw [Dictionary.get?_insert]
    split
    · exact congrArg some (funext (hfunctions υ g))
    · rfl
  rw [hmodules, hmodules, h]

/-! ### Runs that agree -/

/-- Outcomes that are the same but for values. -/
structure Outcome.AlikeInKind (Q : α → β → Prop) (o : Outcome (Recorded σ) α)
    (o' : Outcome (Recorded τ) β) : Prop where
  result : Results Q o.result o'.result
  events : o.events.map Event.withoutValue = o'.events.map Event.withoutValue
  log : o.host.2.map Execution.answerKind = o'.host.2.map Execution.answerKind

/-- Runs that are the same but for values whenever the executions of native functions agree. -/
structure Run.AlikeInKind (Q : α → β → Prop) (m : Run (Recorded σ) α) (m' : Run (Recorded τ) β) :
    Prop where
  left : m.Appends
  right : m'.Appends
  outcome : ∀ h h', h.2.map Execution.answerKind = h'.2.map Execution.answerKind →
    AgreeInKind (m h).host.2 (m' h').host.2 → Outcome.AlikeInKind Q (m h) (m' h')

namespace Run.AlikeInKind

theorem of_step {Q : α → β → Prop} {m : Run (Recorded σ) α} {m' : Run (Recorded τ) β}
    {r : Except RuntimeError α} {r' : Except RuntimeError β} {es es' : List Event}
    (hm : ∀ h, m h = ⟨r, h, es⟩) (hm' : ∀ h, m' h = ⟨r', h, es'⟩) (hr : Results Q r r')
    (he : es.map Event.withoutValue = es'.map Event.withoutValue) : Run.AlikeInKind Q m m' where
  left := .of_step hm
  right := .of_step hm'
  outcome h h' hk _ := by
    rw [hm, hm']
    exact ⟨hr, he, hk⟩

theorem tell {e e' : Event} (h : e.withoutValue = e'.withoutValue) :
    Run.AlikeInKind (σ := σ) (τ := τ) Eq (Run.tell e) (Run.tell e') :=
  of_step (fun _ => rfl) (fun _ => rfl) (.ok rfl) (congrArg ([·]) h)

theorem fail {Q : α → β → Prop} (e : RuntimeError) :
    Run.AlikeInKind (σ := σ) (τ := τ) Q (Run.fail e) (Run.fail e) :=
  of_step (fun _ => rfl) (fun _ => rfl) (.error e) rfl

theorem bind {Q : α → α → Prop} {R : β → β → Prop} {m : Run (Recorded σ) α}
    {m' : Run (Recorded τ) α} {f : α → Run (Recorded σ) β} {f' : α → Run (Recorded τ) β}
    (hQ : ∀ a, Q a a) (hm : Run.AlikeInKind Q m m')
    (hf : ∀ a b, Q a b → Run.AlikeInKind R (f a) (f' b)) :
    Run.AlikeInKind R (m >>= f) (m' >>= f') := by
  have hleft : ∀ a, (f a).Appends := fun a => (hf a a (hQ a)).left
  have hright : ∀ a, (f' a).Appends := fun a => (hf a a (hQ a)).right
  refine ⟨hm.left.bind hleft, hm.right.bind hright, fun h h' hk hagree => ?_⟩
  -- the first parts agree, as their logs are the beginnings of the whole logs
  obtain ⟨hr, he, hl⟩ := hm.outcome h h' hk
    (hagree.of_prefix (Appends.prefix_bind hleft h) (Appends.prefix_bind hright h'))
  rcases ho : m h with ⟨r, h₁, es⟩
  rcases ho' : m' h' with ⟨r', h₁', es'⟩
  rw [ho, ho'] at hr he hl
  cases hr with
  | error e =>
    rw [bind_of_error f ho, bind_of_error f' ho']
    exact ⟨.error e, he, hl⟩
  | @ok a b hab =>
    rw [bind_of_ok f ho, bind_of_ok f' ho'] at hagree ⊢
    obtain ⟨hr, he', hl'⟩ := (hf a b hab).outcome h₁ h₁' hl hagree
    refine ⟨hr, ?_, hl'⟩
    rw [List.map_append, List.map_append, he, he']

end Run.AlikeInKind

/-- The comparison of runs on two hosts by kinds. -/
def kinds (σ τ : Type) : Simulation (Recorded σ) (Recorded τ) where
  Values v w := v.kind = w.kind
  Runs := Run.AlikeInKind
  refl _ := rfl
  pure hq := .of_step (fun _ => rfl) (fun _ => rfl) (.ok hq) rfl
  bind := .bind
  fail _ := .fail _
  operate op span ha hb :=
    .of_step (fun _ => rfl) (fun _ => rfl) (Value.applyAt_kind ha hb op span) rfl
  declare _ _ := .tell rfl
  returned _ _ := .tell rfl
  returnedVoid _ := .tell rfl

/-- Answers of one kind, or with the same message, make results of one kind. -/
theorem results_mapError {r r' : Except String Value}
    (h : r.map Value.kind = r'.map Value.kind) (error : String → RuntimeError) :
    Results (fun v w : Value => v.kind = w.kind) (r.mapError error) (r'.mapError error) := by
  cases r with
  | error message =>
    cases r' with
    | error message' =>
      obtain rfl : message = message' := Except.error.inj h
      exact .error _
    | ok w => exact absurd h (by simp [Except.map])
  | ok v =>
    cases r' with
    | error message' => exact absurd h (by simp [Except.map])
    | ok w => exact .ok (Except.ok.inj h)

theorem kinds_onHost (f : NativeFunction σ) (f' : NativeFunction τ) (module function : String)
    (args args' : List Value) (error : String → RuntimeError) :
    (kinds σ τ).Runs (kinds σ τ).Values
      (Run.onHost ((f.recorded module function).call args) error)
      (Run.onHost ((f'.recorded module function).call args') error) := by
  refine ⟨Run.Appends.onHost f _ _ _ _, Run.Appends.onHost f' _ _ _ _, fun h h' hk hagree => ?_⟩
  rw [Run.onHost_apply, Run.onHost_apply] at hagree ⊢
  have hlast : (f.call args h.1).1.map Value.kind = (f'.call args' h'.1).1.map Value.kind :=
    AgreeInKind.last hk hagree
  refine ⟨results_mapError hlast error, rfl, ?_⟩
  show List.map _ (h.2 ++ [_]) = List.map _ (h'.2 ++ [_])
  rw [List.map_append, List.map_append, hk]
  exact congrArg (fun k => _ ++ [k]) hlast

theorem kinds_callNative {natives : Registry σ} {natives' : Registry τ}
    (hs : natives.signature = natives'.signature) :
    (kinds σ τ).Natives natives.recorded natives'.recorded := by
  have hrecorded : natives.recorded.signature = natives'.recorded.signature := by
    rw [Registry.signature_recorded, Registry.signature_recorded, hs]
  refine @Simulation.natives _ _ (kinds σ τ) _ _ hrecorded (fun _ _ => .tell rfl) ?_
  intro i f f' hf hf' args args' span _
  rw [Registry.function?_recorded, Option.map_eq_some_iff] at hf hf'
  obtain ⟨g, -, rfl⟩ := hf
  obtain ⟨g', -, rfl⟩ := hf'
  exact kinds_onHost g g' _ _ args args' _

namespace Interpreter

theorem kinds_invoke (p : Program) (c : Config) {natives : Registry σ} {natives' : Registry τ}
    (hs : natives.signature = natives'.signature) (budget : Nat) :
    (kinds σ τ).Invokes (recorded ⟨p, natives, c⟩) budget (recorded ⟨p, natives', c⟩) budget :=
  @Simulation.invoke_same _ _ (kinds σ τ) (recorded ⟨p, natives, c⟩) (recorded ⟨p, natives', c⟩)
    rfl rfl (fun _ _ _ => .fail _) (fun _ _ => .tell rfl) (kinds_callNative hs) budget

/-- Recorded runs that are the same but for values are the recordings of such runs. -/
theorem sameInKind_of_recorded {o : Outcome σ Value} {o' : Outcome τ Value}
    {log log' : List Execution}
    (h : Outcome.AlikeInKind (fun v w : Value => v.kind = w.kind)
      (⟨o.result, (o.host, log), o.events⟩ : Outcome (Recorded σ) Value)
      (⟨o'.result, (o'.host, log'), o'.events⟩ : Outcome (Recorded τ) Value)) :
    o.SameInKind o' := by
  refine ⟨h.events, ?_⟩
  obtain ⟨hr, -, -⟩ := h
  revert hr
  generalize o.result = r
  generalize o'.result = r'
  rintro (hk | _)
  · exact congrArg Except.ok hk
  · rfl

/-- **Runs depend on kinds alone.** Two runs of a program with the same settings, on registries with
the same functions, do the same but for values: if the arguments are of the same kinds and the
executions of native functions agree in kind, as far as both logs go. -/
theorem sameInKind (p : Program) (c : Config) {natives : Registry σ} {natives' : Registry τ}
    (hs : natives.signature = natives'.signature) (h : σ) (h' : τ) :
    (∀ (name : String) (args args' : List Value),
      args.map Value.kind = args'.map Value.kind →
      AgreeInKind (callLog ⟨p, natives, c⟩ name args h) (callLog ⟨p, natives', c⟩ name args' h') →
        (call ⟨p, natives, c⟩ name args h).SameInKind (call ⟨p, natives', c⟩ name args' h')) ∧
    (AgreeInKind (runLog ⟨p, natives, c⟩ h) (runLog ⟨p, natives', c⟩ h') →
      (run ⟨p, natives, c⟩ h).SameInKind (run ⟨p, natives', c⟩ h')) := by
  constructor
  · intro name args args' ha hagree
    have hargs : List.Forall₂ (kinds σ τ).Values args args' := by
      rw [← List.forall₂_eq_eq_eq, List.forall₂_map_left_iff, List.forall₂_map_right_iff] at ha
      exact ha
    have hcall := @Simulation.call _ _ (kinds σ τ) (recorded ⟨p, natives, c⟩)
      (recorded ⟨p, natives', c⟩) rfl (kinds_invoke p c hs _) (kinds_callNative hs) name _ _ hargs
    have halike := hcall.outcome (h, []) (h', []) rfl hagree
    rw [recorded_call, recorded_call] at halike
    exact sameInKind_of_recorded halike
  · intro hagree
    have hrun := @Simulation.run _ _ (kinds σ τ) (recorded ⟨p, natives, c⟩)
      (recorded ⟨p, natives', c⟩) rfl rfl (kinds_invoke p c hs _)
    have halike := hrun.outcome (h, []) (h', []) rfl hagree
    rw [recorded_run, recorded_run] at halike
    exact sameInKind_of_recorded halike

/-- A host that gives back what it gets, and one that counts and always gives the same string. -/
theorem sameInKind_small :
    let fixed : Registry Nat := .single "host" "get" ⟨["v"], fun _ n => (.ok (.string "b"), n + 1)⟩
    (call ⟨.small, .echo, default⟩ "twice" [.string "a"] ()).SameInKind
      (call ⟨.small, fixed, default⟩ "twice" [.string "c"] 5) ∧
    (run ⟨.small, .echo, default⟩ ()).SameInKind (run ⟨.small, fixed, default⟩ 5) := by
  intro fixed
  have hs : Registry.echo.signature = fixed.signature := Registry.signature_single _ _ rfl
  have h := sameInKind .small default hs () 5
  exact ⟨h.1 "twice" [.string "a"] [.string "c"] rfl (agreeInKind_of_eq rfl),
    h.2 (agreeInKind_of_eq rfl)⟩

end Interpreter

end Scriptlet
