import Mathlib.Logic.Relation
import Mathlib.Order.Interval.Set.Basic
import Scriptlet.Proofs.Run.Depth
import Scriptlet.Proofs.Run.Rules

/-!
# Termination

A program may call itself without end, and nothing in the language stops it. What stops it is the
limit on nested calls. Calls and runs always come to an end, no call ever starts deeper than the
limit, and the word that counts the depth never overflows. A call too many fails before anything of
its function is touched.

## Main definitions

* `Job.depth` — the number of calls around a piece of work
* `Interpreter.Terminates` — evaluation ends, and stays within the limit

## Main results

* `Interpreter.depth_le_of_needs` — no work is deeper than the limit
* `Interpreter.terminates` — evaluation terminates and never nests past the limit
-/

namespace Scriptlet

variable {σ : Type}

/-- The number of calls around a piece of work. -/
def Job.depth : Job → UInt64
  | .expression d .. | .arguments d .. | .statements d .. | .invocation d .. => d
  | .call .. | .entry => 0

namespace Interpreter

variable {it : Interpreter σ}

/-! ### Depths of work -/

/-- The statements of a function are exactly one level deeper than the call that runs them. -/
theorem depth_of_needs_invocation {j : Job} {d : UInt64} {f : ScriptFunction} {args : List Value}
    {span : Span} (h : it.Needs j (.invocation d f args span)) : j.depth.toNat = d.toNat + 1 := by
  cases h with
  | body hd => exact toNat_succ_of_lt hd

theorem Needs.depth_le {j k : Job} (h : it.Needs j k) (hk : k.depth ≤ it.config.maxCallDepth) :
    j.depth ≤ it.config.maxCallDepth := by
  cases h with
  | lhs | rhs | arguments | callee | head | tail | value | next => exact hk
  | body hd =>
    rw [Job.depth, UInt64.le_iff_toNat_le, toNat_succ_of_lt hd]
    exact UInt64.lt_iff_toNat_lt.1 hd
  | call | entry => exact hk

/-- **No work is deeper than the limit**, if the work that it is done for is not. -/
theorem depth_le_of_needs {j k : Job} (h : Relation.TransGen it.Needs j k)
    (hk : k.depth ≤ it.config.maxCallDepth) : j.depth ≤ it.config.maxCallDepth := by
  induction h with
  | single h => exact h.depth_le hk
  | tail _ h ih => exact ih (h.depth_le hk)

/-! ### Calls at the limit -/

section

variable {f : ScriptFunction} {args : List Value} {span : Span} {h : σ}

/-- A call at the limit does nothing for its function. -/
theorem not_needs_limit (j : Job) :
    ¬ it.Needs j (.invocation it.config.maxCallDepth f args span) := by
  rintro ⟨⟩
  exact absurd ‹it.config.maxCallDepth < it.config.maxCallDepth› (UInt64.lt_irrefl _)

/-- A call at the limit fails, and tells nothing. -/
theorem yields_limit (ha : f.arity = args.length)
    {o : Outcome σ Value} :
    it.Yields (.invocation it.config.maxCallDepth f args span) h o ↔
      o = ⟨.error (.callDepthExceeded f.name.name it.config.maxCallDepth.toNat span), h, []⟩ := by
  rw [yields_iff, ← Yields.perform_eq (Yields.limit ha (UInt64.le_refl _)), eq_comm]

/-- A call at the limit fails as soon as its arguments have values. -/
theorem yields_call_limit {scope : Scope} {callee : Identifier} {es : List Expr} {h₁ : σ}
    {events : List Event} {o : Outcome σ Value}
    (hargs : it.Yields (.arguments it.config.maxCallDepth scope es) h ⟨.ok args, h₁, events⟩)
    (hd : it.program.get? callee.name = some (.script f)) (ha : f.arity = args.length) :
    it.Yields (.expression it.config.maxCallDepth scope (.call callee es span)) h o ↔
      o = ⟨.error (.callDepthExceeded f.name.name it.config.maxCallDepth.toNat span), h₁,
        events⟩ := by
  have hlimit : it.Yields (.invocation it.config.maxCallDepth f args span) h₁ _ :=
    .limit ha (UInt64.le_refl _)
  have hcall := Yields.call_script hargs hd hlimit
  rw [List.append_nil] at hcall
  rw [yields_iff, ← hcall.perform_eq, eq_comm]

end

/-! ### Depths of events -/

/-- A call of an import starts no function of the script. -/
theorem not_invoke_mem_callNative {natives : Registry σ} {i : Import} {args : List Value}
    {span : Span} {h : σ} {g : String} {n : Nat} :
    .invoke g n ∉ (callNative natives i args span h).events :=
  (confined_callNative natives (fun _ => False) True i span (Simulation.values_refl args) h).1 g n

/-- A level below the limit is followed by one between the first and the limit. -/
theorem toNat_succ_mem {d limit : UInt64} (hd : d < limit) :
    (d + 1).toNat ∈ Set.Icc 1 limit.toNat := by
  rw [toNat_succ_of_lt hd]
  exact ⟨Nat.le_add_left 1 d.toNat, UInt64.lt_iff_toNat_lt.1 hd⟩

/-- **Calls start between the first level and the limit**, in work of any kind and whether or not
it succeeds: each rule adds such starts only. -/
theorem Yields.invoke_mem {j : Job} {h : σ} {o : Outcome σ j.Result} (ho : it.Yields j h o)
    {g : String} {n : Nat} (hg : .invoke g n ∈ o.events) :
    n ∈ Set.Icc 1 it.config.maxCallDepth.toNat := by
  induction ho with
  | number | bool | string | identifier | undeclared | arguments_nil | arity | limit | missing
  | entry_missing | entry_native | entry_invalid => exact absurd hg List.not_mem_nil
  | binary_fails _ ih | call_fails _ ih | call_unknown _ _ ih | arguments_fails _ ih
  | statement_fails _ ih | script _ _ ih | entry _ _ _ ih => exact ih hg
  | binary _ _ ih ih' | call_script _ _ _ ih ih' | arguments _ _ ih ih' | expression _ _ ih ih' =>
    rcases List.mem_append.1 hg with hg | hg
    · exact ih hg
    · exact ih' hg
  | call_native _ _ hn ih =>
    rcases List.mem_append.1 hg with hg | hg
    · exact ih hg
    · exact absurd (hn ▸ hg) not_invoke_mem_callNative
  | native _ hn => exact absurd (hn ▸ hg) not_invoke_mem_callNative
  | statements_nil => cases List.mem_singleton.1 hg
  | duplicate _ _ ih | result _ ih =>
    rcases List.mem_append.1 hg with hg | hg
    · exact ih hg
    · cases List.mem_singleton.1 hg
  | declaration _ _ _ ih ih' =>
    rcases List.mem_append.1 hg with hg | hg
    · exact ih hg
    · rcases List.mem_cons.1 hg with hg | hg
      · cases hg
      · exact ih' hg
  | parameter _ hd =>
    cases List.mem_singleton.1 hg
    exact toNat_succ_mem hd
  | invocation _ hd _ _ ih =>
    rcases List.mem_cons.1 hg with hg | hg
    · cases hg
      exact toNat_succ_mem hd
    · exact ih hg

/-! ### Termination -/

/-- Evaluation always comes to an end, and never nests past the limit. -/
structure Terminates (it : Interpreter σ) : Prop where
  /-- What has to be done gets smaller: less levels are left, or as many and less text. -/
  decreases : ∀ {j k : Job}, it.Needs j k → Prod.Lex (· < ·) (· < ·) (it.size j) (it.size k)
  wellFounded : WellFounded it.Needs
  /-- Without any bound on how often rules are applied, all work has an outcome, and one only. -/
  existsUnique : ∀ (j : Job) (h : σ), ∃! o, it.Yields j h o
  call : ∀ (name : String) (args : List Value) (h : σ),
    it.Yields (.call name args) h (it.call name args h)
  run : ∀ h : σ, it.Yields .entry h (it.run h)
  /-- Calls start between the first level and the limit, also in work that fails. -/
  invoke_mem : ∀ {j : Job} {h : σ} {o : Outcome σ j.Result}, it.Yields j h o →
    ∀ {g : String} {n : Nat}, .invoke g n ∈ o.events → n ∈ Set.Icc 1 it.config.maxCallDepth.toNat
  /-- Whatever is done in the course of a call or a run is not deeper than the limit. -/
  depth_le : ∀ {j k : Job}, Relation.TransGen it.Needs j k → k.depth = 0 →
    j.depth ≤ it.config.maxCallDepth
  /-- Counting the depth does not overflow. -/
  depth_succ : ∀ {j : Job} {d : UInt64} {f : ScriptFunction} {args : List Value} {span : Span},
    it.Needs j (.invocation d f args span) → j.depth.toNat = d.toNat + 1
  /-- A call at the limit fails before anything of its function is touched. -/
  limit : ∀ {f : ScriptFunction} {args : List Value} (span : Span), f.arity = args.length →
    (∀ j, ¬ it.Needs j (.invocation it.config.maxCallDepth f args span)) ∧
    ∀ {h : σ} {o : Outcome σ Value},
      it.Yields (.invocation it.config.maxCallDepth f args span) h o ↔
        o = ⟨.error (.callDepthExceeded f.name.name it.config.maxCallDepth.toNat span), h, []⟩
  /-- Where such a call stands in the text, nothing is done but to evaluate its arguments. -/
  limit_call : ∀ {f : ScriptFunction} {args : List Value} (span : Span), f.arity = args.length →
    ∀ {scope : Scope} {callee : Identifier} {es : List Expr} {h h₁ : σ} {events : List Event},
      it.Yields (.arguments it.config.maxCallDepth scope es) h ⟨.ok args, h₁, events⟩ →
      it.program.get? callee.name = some (.script f) → ∀ {o : Outcome σ Value},
        it.Yields (.expression it.config.maxCallDepth scope (.call callee es span)) h o ↔
          o = ⟨.error (.callDepthExceeded f.name.name it.config.maxCallDepth.toNat span), h₁,
            events⟩

/-- **Evaluation terminates and never nests past the limit**, for every program, every host and
every limit. -/
theorem terminates (it : Interpreter σ) : it.Terminates where
  decreases := Needs.size_lt
  wellFounded := it.needs_wellFounded
  existsUnique j h := ⟨it.perform j h, it.yields_iff.2 rfl, fun _ ho => ho.perform_eq.symm⟩
  call _ _ _ := it.yields_iff.2 rfl
  run _ := it.yields_iff.2 rfl
  invoke_mem ho _ _ hg := ho.invoke_mem hg
  depth_le h hk := depth_le_of_needs h (by simp [hk])
  depth_succ := depth_of_needs_invocation
  limit _ ha := ⟨not_needs_limit, yields_limit ha⟩
  limit_call _ ha _ _ _ _ _ _ hargs hd _ := yields_call_limit hargs hd ha

/-- A `main` that only calls itself fails at the limit, and this is all that can come of it. -/
theorem terminates_spin :
    let main : ScriptFunction := ⟨⟨"main", default⟩, [],
      [.result (.call ⟨"main", default⟩ [] default) default], default⟩
    let it : Interpreter Unit := ⟨.ofList [("main", .script main)], .echo, ⟨"main", 2⟩⟩
    let e : RuntimeError := .callDepthExceeded "main" 2 default
    (∀ o, it.Yields .entry () o ↔ o = ⟨.error e, (), [.invoke "main" 1, .invoke "main" 2]⟩) ∧
      ∀ o, it.Yields (.invocation 2 main [] default) () o ↔ o = ⟨.error e, (), []⟩ := by
  intro main it e
  have h := terminates it
  refine ⟨fun o => ⟨fun ho => (h.existsUnique .entry ()).unique ho (h.run ()), ?_⟩,
    fun o => (h.limit default rfl).2⟩
  rintro rfl
  exact h.run ()

end Interpreter

end Scriptlet
