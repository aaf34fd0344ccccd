import Mathlib.Data.List.Forall2
import Scriptlet.Proofs.Run.Callees

/-!
# Comparing runs

Many facts about runs say how two runs of the same text compare: with different arguments, under
different limits, on different hosts. A `Simulation` says how values and runs are compared, and
that the steps a run is built from respect it. Then evaluation respects it as well, as soon as the
calls do that the text can come to.

What goes on from a first part is compared from related results only. Every result is related to
itself, so this also speaks of each side alone: what goes on from one side after the other has ended
is still something that the comparison admits.

## Main definitions

* `Results` — how results compare
* `Registry.signature` — which functions a registry has, and how many parameters they have
* `Simulation` — a comparison of runs that every step respects
* `Simulation.Scopes` — the same names are bound, to related values
* `Simulation.Callers`, `Simulation.Invokes`, `Simulation.Natives` — calls on related arguments are
  related: of a name, of script functions, of imports

## Main results

* `Simulation.eval`, `Simulation.runBody`, `Simulation.enter` — evaluation respects the comparison
* `Simulation.natives`, `Simulation.invoke` — calls do, for two runs of one program
* `Simulation.call`, `Simulation.run` — so do whole runs
-/

namespace Scriptlet

/-- Whether an error says that calls nest too deep. -/
def RuntimeError.isCallDepth : RuntimeError → Bool
  | callDepthExceeded .. => true
  | _ => false

/-- Results that compare: values that do, or the same error. -/
inductive Results {α β : Type} (Q : α → β → Prop) :
    Except RuntimeError α → Except RuntimeError β → Prop
  | ok {a b} (h : Q a b) : Results Q (.ok a) (.ok b)
  | error (e) : Results Q (.error e) (.error e)

theorem results_eq_iff {α : Type} {r r' : Except RuntimeError α} : Results Eq r r' ↔ r = r' := by
  constructor
  · rintro (rfl | _) <;> rfl
  · rintro rfl
    cases r with
    | ok a => exact .ok rfl
    | error e => exact .error e

/-- An operator fails only because of the kinds of its operands. -/
theorem Value.error_of_applyAt {op : Operator} {a b : Value} {span : Span} {e : RuntimeError}
    (h : applyAt op a b span = .error e) : e = .typeMismatch op a.kind b.kind span := by
  rw [applyAt] at h
  cases hv : operate? op a b with
  | none =>
    rw [hv] at h
    exact (Except.error.inj h).symm
  | some v =>
    rw [hv] at h
    cases h

namespace Registry

variable {σ : Type}

/-- The function of a module. -/
def function? (r : Registry σ) (module function : String) : Option (NativeFunction σ) :=
  (r.module? module).bind (·.get? function)

/-- Which modules there are, and how many parameters their functions have. -/
def signature (r : Registry σ) (module : String) : Option (String → Option Nat) :=
  (r.module? module).map fun m function => (m.get? function).map NativeFunction.arity

end Registry

/-- A comparison of runs on the hosts `σ` and `τ` that every step of a run respects. -/
structure Simulation (σ τ : Type) where
  /-- How the values of the two runs compare. -/
  Values : Value → Value → Prop
  /-- How runs compare, given how their results do. -/
  Runs : {α : Type} → (α → α → Prop) → Run σ α → Run τ α → Prop
  refl : ∀ v, Values v v
  pure : ∀ {α : Type} {Q : α → α → Prop} {a b : α}, Q a b → Runs Q (pure a) (pure b)
  bind : ∀ {α β : Type} {Q : α → α → Prop} {R : β → β → Prop} {m : Run σ α} {m' : Run τ α}
    {f : α → Run σ β} {f' : α → Run τ β}, (∀ a, Q a a) → Runs Q m m' →
      (∀ a b, Q a b → Runs R (f a) (f' b)) → Runs R (m >>= f) (m' >>= f')
  fail : ∀ {α : Type} {Q : α → α → Prop} {e : RuntimeError}, e.isCallDepth = false →
    Runs Q (Run.fail e) (Run.fail e)
  operate : ∀ {a a' b b' : Value} (op : Operator) (span : Span), Values a a' → Values b b' →
    Runs Values (Run.ofExcept (Value.applyAt op a b span))
      (Run.ofExcept (Value.applyAt op a' b' span))
  declare : ∀ {v w : Value} (name : String), Values v w →
    Runs Eq (Run.tell (.declare name v)) (Run.tell (.declare name w))
  returned : ∀ {v w : Value} (function : String), Values v w →
    Runs Eq (Run.tell (.returned function v)) (Run.tell (.returned function w))
  returnedVoid : ∀ function : String,
    Runs Eq (Run.tell (.returnedVoid function)) (Run.tell (.returnedVoid function))

namespace Simulation

variable {σ τ : Type} (S : Simulation σ τ)

/-- The same names are bound, to related values. -/
def Scopes (s t : Scope) : Prop := ∀ x, Option.Rel S.Values (s.get? x) (t.get? x)

/-- Calls of a name on related arguments are related. -/
def Callers (call : Caller σ) (call' : Caller τ) (callee : Identifier) : Prop :=
  ∀ {args args' : List Value} (span : Span), List.Forall₂ S.Values args args' →
    S.Runs S.Values (call callee args span) (call' callee args' span)

variable {S}

section

variable {call : Caller σ} {call' : Caller τ} {s t : Scope}

theorem scopes_refl (s : Scope) : S.Scopes s s := fun x =>
  match s.get? x with
  | none => .none
  | some v => .some (S.refl v)

theorem scopes_empty : S.Scopes ∅ ∅ := scopes_refl ∅

theorem values_refl (vs : List Value) : List.Forall₂ S.Values vs vs :=
  List.forall₂_same.2 fun v _ => S.refl v

/-! ### Variables -/

theorem Scopes.isSome_eq (h : S.Scopes s t) (x : String) :
    (s.get? x).isSome = (t.get? x).isSome := by
  have hx := h x
  revert hx
  generalize s.get? x = a
  generalize t.get? x = b
  rintro (_ | _) <;> rfl

theorem bindNew (h : S.Scopes s t) {v w : Value} (hv : S.Values v w) (name : Identifier) :
    S.Runs S.Scopes (bindNew s name v) (bindNew t name w) := by
  have hnone : s.declare? name.name v = none ↔ t.declare? name.name w = none := by
    rw [Scope.declare?_eq_none_iff, Scope.declare?_eq_none_iff, h.isSome_eq]
  rw [Scriptlet.bindNew, Scriptlet.bindNew]
  cases hs : s.declare? name.name v with
  | none =>
    rw [hnone.1 hs]
    exact S.fail rfl
  | some s' =>
    cases ht : t.declare? name.name w with
    | none => exact absurd (hs.symm.trans (hnone.2 ht)) (by simp)
    | some t' =>
      refine S.pure fun x => ?_
      rw [Scope.get?_of_declare? hs, Scope.get?_of_declare? ht]
      split
      · exact .some hv
      · exact h x

theorem bindAll {args args' : List Value} (ha : List.Forall₂ S.Values args args') :
    ∀ {s t : Scope} (params : List Identifier), S.Scopes s t →
      S.Runs S.Scopes (bindAll s (params.zip args)) (bindAll t (params.zip args')) := by
  induction ha with
  | nil =>
    intro s t params h
    rw [List.zip_nil_right]
    exact S.pure h
  | cons hv _ ih =>
    intro s t params h
    cases params with
    | nil => exact S.pure h
    | cons name params => exact S.bind scopes_refl (bindNew h hv name) fun _ _ h => ih params h

/-! ### Evaluation -/

mutual

/-- Evaluating an expression respects a comparison if its calls do. -/
theorem eval (h : S.Scopes s t) : ∀ e : Expr, (∀ c ∈ e.callees, S.Callers call call' c) →
    S.Runs S.Values (e.eval call s) (e.eval call' t)
  | .number _ _, _ | .bool _ _, _ | .string _ _, _ => S.pure (S.refl _)
  | .identifier name span, _ => by
    rw [Expr.eval, Expr.eval]
    have hx := h name
    revert hx
    generalize s.get? name = a
    generalize t.get? name = b
    rintro (hv | _)
    · exact S.pure hv
    · exact S.fail rfl
  | .binary _ lhs op opSpan rhs _, hc => by
    rw [Expr.eval, Expr.eval]
    rw [Expr.callees] at hc
    refine S.bind S.refl (eval h lhs fun c hm => hc c (List.mem_append_left _ hm)) ?_
    intro a a' ha
    refine S.bind S.refl (eval h rhs fun c hm => hc c (List.mem_append_right _ hm)) ?_
    intro b b' hb
    exact S.operate op opSpan ha hb
  | .call callee args span, hc => by
    rw [Expr.eval, Expr.eval]
    rw [Expr.callees] at hc
    refine S.bind values_refl (evalAll h args fun c hm => hc c (List.mem_append_left _ hm)) ?_
    intro vs ws hv
    exact hc callee (by simp) span hv

theorem evalAll (h : S.Scopes s t) : ∀ es : List Expr,
    (∀ c ∈ Expr.calleesAll es, S.Callers call call' c) →
      S.Runs (List.Forall₂ S.Values) (Expr.evalAll call s es) (Expr.evalAll call' t es)
  | [], _ => S.pure .nil
  | e :: es, hc => by
    rw [Expr.evalAll, Expr.evalAll]
    rw [Expr.calleesAll] at hc
    refine S.bind S.refl (eval h e fun c hm => hc c (List.mem_append_left _ hm)) ?_
    intro v w hv
    refine S.bind values_refl (evalAll h es fun c hm => hc c (List.mem_append_right _ hm)) ?_
    intro vs ws hvs
    exact S.pure (.cons hv hvs)

end

/-! ### Calls -/

theorem runBody (function : String) : ∀ {s t : Scope} (body : List Stmt), S.Scopes s t →
    (∀ c ∈ liveCallees body, S.Callers call call' c) →
      S.Runs S.Values (runBody call function s body) (runBody call' function t body) := by
  intro s t body
  induction body generalizing s t with
  | nil =>
    intro _ _
    exact S.bind (fun _ => rfl) (S.returnedVoid function) fun _ _ _ => S.pure (S.refl _)
  | cons stmt rest ih =>
    intro h hc
    cases stmt with
    | declaration name value span =>
      rw [liveCallees] at hc
      refine S.bind S.refl (eval h value fun c hm => hc c (List.mem_append_left _ hm)) ?_
      intro v w hv
      refine S.bind (fun _ => rfl) (S.declare name.name hv) fun _ _ _ => ?_
      refine S.bind scopes_refl (bindNew h hv name) ?_
      intro s' t' h'
      exact ih h' fun c hm => hc c (List.mem_append_right _ hm)
    | result value span =>
      refine S.bind S.refl (eval h value hc) ?_
      intro v w hv
      exact S.bind (fun _ => rfl) (S.returned function hv) fun _ _ _ => S.pure hv
    | expression value span =>
      rw [liveCallees] at hc
      refine S.bind S.refl (eval h value fun c hm => hc c (List.mem_append_left _ hm)) ?_
      intro _ _ _
      exact ih h fun c hm => hc c (List.mem_append_right _ hm)

theorem checkArity (name : String) (expected actual : Nat) (span : Span) :
    S.Runs Eq (checkArity name expected actual span) (checkArity name expected actual span) := by
  rw [Scriptlet.checkArity, Scriptlet.checkArity]
  split
  · exact S.pure rfl
  · exact S.fail rfl

/-- **One call of a script function respects a comparison** if the start of the call does and the
calls do that its statements can come to. -/
theorem enter {f : ScriptFunction} {depth depth' : Nat}
    (ht : S.Runs Eq (Run.tell (.invoke f.name.name depth)) (Run.tell (.invoke f.name.name depth')))
    (hc : ∀ c ∈ liveCallees f.body, S.Callers call call' c) {args args' : List Value}
    (ha : List.Forall₂ S.Values args args') (span : Span) :
    S.Runs S.Values (enter call depth f args span) (enter call' depth' f args' span) := by
  rw [Scriptlet.enter, Scriptlet.enter, ha.length_eq]
  refine S.bind (fun _ => rfl) (checkArity ..) fun _ _ _ => ?_
  refine S.bind (fun _ => rfl) ht fun _ _ _ => ?_
  refine S.bind scopes_refl (bindAll ha f.params scopes_empty) ?_
  intro s t h
  exact runBody f.name.name f.body h hc

end

/-! ### Interpreters of one program -/

variable (S) in
/-- Calls of script functions with `budget` and `budget'` more nested calls allowed are related. -/
def Invokes (it : Interpreter σ) (budget : Nat) (it' : Interpreter τ) (budget' : Nat) : Prop :=
  ∀ (f : ScriptFunction) {args args' : List Value} (span : Span),
    List.Forall₂ S.Values args args' →
      S.Runs S.Values (it.invoke budget f args span) (it'.invoke budget' f args' span)

variable (S) in
/-- Calls of imports are related. -/
def Natives (natives : Registry σ) (natives' : Registry τ) : Prop :=
  ∀ (i : Import) {args args' : List Value} (span : Span), List.Forall₂ S.Values args args' →
    S.Runs S.Values (callNative natives i args span) (callNative natives' i args' span)

variable {it : Interpreter σ} {it' : Interpreter τ} {k : Nat}

/-- **Calls of imports respect a comparison** on registries of one signature, if the start of such a
call does and calls of functions under the same name do. -/
theorem natives {natives : Registry σ} {natives' : Registry τ}
    (hs : natives.signature = natives'.signature)
    (hstart : ∀ module function : String,
      S.Runs Eq (Run.tell (.nativeCall module function)) (Run.tell (.nativeCall module function)))
    (hcall : ∀ (i : Import) {f : NativeFunction σ} {f' : NativeFunction τ},
      natives.function? i.module i.name.name = some f →
      natives'.function? i.module i.name.name = some f' →
      ∀ {args args' : List Value} (span : Span), List.Forall₂ S.Values args args' →
        S.Runs S.Values
          (Run.onHost (f.call args) fun message => .native i.module i.name.name message span)
          (Run.onHost (f'.call args') fun message => .native i.module i.name.name message span)) :
    S.Natives natives natives' := by
  intro i args args' span ha
  have hcalli := @hcall i
  have hmodule := congrFun hs i.module
  rw [Registry.signature, Registry.signature] at hmodule
  rw [Registry.function?, Registry.function?] at hcalli
  rw [callNative, callNative]
  cases hm : natives.module? i.module with
  | none =>
    rw [hm, Option.map_none, eq_comm, Option.map_eq_none_iff] at hmodule
    rw [hmodule]
    exact S.fail rfl
  | some m =>
    rw [hm, Option.map_some, eq_comm, Option.map_eq_some_iff] at hmodule
    obtain ⟨m', hm', hfunctions⟩ := hmodule
    have hfunction := congrFun hfunctions i.name.name
    rw [hm, hm'] at hcalli
    rw [hm']
    simp only [Option.bind_some] at hcalli ⊢
    cases hf : m.get? i.name.name with
    | none =>
      rw [hf, Option.map_none, Option.map_eq_none_iff] at hfunction
      rw [hfunction]
      exact S.fail rfl
    | some f =>
      rw [hf, Option.map_some, Option.map_eq_some_iff] at hfunction
      obtain ⟨f', hf', harity⟩ := hfunction
      rw [hf']
      simp only [harity, ha.length_eq]
      refine S.bind (fun _ => rfl) (checkArity ..) fun _ _ _ => ?_
      refine S.bind (fun _ => rfl) (hstart i.module i.name.name) fun _ _ _ => ?_
      exact hcalli hf hf' span ha

theorem callAt {budget budget' : Nat} (hp : it'.program = it.program)
    (hscript : S.Invokes it budget it' budget') (hnative : S.Natives it.natives it'.natives)
    (callee : Identifier) : S.Callers (it.callAt budget) (it'.callAt budget') callee := by
  intro args args' span ha
  rw [Interpreter.callAt, Interpreter.callAt, hp]
  cases it.program.get? callee.name with
  | none => exact S.fail rfl
  | some d =>
    cases d with
    | script f => exact hscript f span ha
    | native i => exact hnative i span ha

/-- **Calls of script functions respect a comparison** of runs of one program, where the second run
has `k` more nested calls left, if calls without any left in the first run do, the starts of calls
with fewer than `most` left and calls of imports. -/
theorem invoke_upTo {most : Nat} (hp : it'.program = it.program) (hzero : S.Invokes it 0 it' k)
    (hstart : ∀ (name : String) (budget : Nat), budget < most →
      S.Runs Eq (Run.tell (.invoke name (it.config.maxCallDepth.toNat - budget)))
        (Run.tell (.invoke name (it'.config.maxCallDepth.toNat - (budget + k)))))
    (hnative : S.Natives it.natives it'.natives) :
    ∀ budget : Nat, budget ≤ most → S.Invokes it budget it' (budget + k) := by
  intro budget
  induction budget with
  | zero =>
    intro _
    rw [Nat.zero_add]
    exact hzero
  | succ budget ih =>
    intro hmost f args args' span ha
    have hcallees := ih (Nat.le_of_succ_le hmost)
    rw [Nat.add_right_comm, Interpreter.invoke_succ, Interpreter.invoke_succ]
    exact enter (hstart f.name.name budget hmost) (fun c _ => callAt hp hcallees hnative c) ha span

/-- So it is with any number of nested calls left if all starts of calls respect the comparison. -/
theorem invoke (hp : it'.program = it.program) (hzero : S.Invokes it 0 it' k)
    (hstart : ∀ (name : String) (budget : Nat),
      S.Runs Eq (Run.tell (.invoke name (it.config.maxCallDepth.toNat - budget)))
        (Run.tell (.invoke name (it'.config.maxCallDepth.toNat - (budget + k)))))
    (hnative : S.Natives it.natives it'.natives) (budget : Nat) :
    S.Invokes it budget it' (budget + k) :=
  invoke_upTo hp hzero (fun name budget _ => hstart name budget) hnative budget (Nat.le_refl _)

/-- Calls under the same limit respect a comparison if hitting the limit does, the starts of calls
and calls of imports. -/
theorem invoke_same (hp : it'.program = it.program) (hc : it'.config = it.config)
    (hlimit : ∀ (name : String) (limit : Nat) (span : Span),
      S.Runs S.Values (Run.fail (.callDepthExceeded name limit span))
        (Run.fail (.callDepthExceeded name limit span)))
    (hstart : ∀ (name : String) (depth : Nat),
      S.Runs Eq (Run.tell (.invoke name depth)) (Run.tell (.invoke name depth)))
    (hnative : S.Natives it.natives it'.natives) (budget : Nat) :
    S.Invokes it budget it' budget := by
  refine invoke (k := 0) hp ?_ (fun name budget => ?_) hnative budget
  · intro f args args' span ha
    rw [Interpreter.invoke_zero, Interpreter.invoke_zero, hc, ha.length_eq]
    exact S.bind (fun _ => rfl) (checkArity ..) fun _ _ _ => hlimit ..
  · rw [hc]
    exact hstart ..

theorem call (hp : it'.program = it.program)
    (hscript : S.Invokes it it.config.maxCallDepth.toNat it' it'.config.maxCallDepth.toNat)
    (hnative : S.Natives it.natives it'.natives) (name : String) {args args' : List Value}
    (ha : List.Forall₂ S.Values args args') :
    S.Runs S.Values (it.call name args) (it'.call name args') := by
  rw [Interpreter.call, Interpreter.call, hp]
  cases it.program.get? name with
  | none => exact S.fail rfl
  | some d =>
    cases d with
    | script f => exact hscript f _ ha
    | native i => exact hnative i _ ha

theorem run (hp : it'.program = it.program)
    (he : it'.config.entryPoint = it.config.entryPoint)
    (hscript : S.Invokes it it.config.maxCallDepth.toNat it' it'.config.maxCallDepth.toNat) :
    S.Runs S.Values it.run it'.run := by
  rw [Interpreter.run, Interpreter.run, hp, he]
  cases it.program.get? it.config.entryPoint with
  | none => exact S.fail rfl
  | some d =>
    cases d with
    | script f =>
      simp only
      split
      · exact hscript f _ .nil
      · exact S.fail rfl
    | native i => exact S.fail rfl

end Simulation

end Scriptlet
