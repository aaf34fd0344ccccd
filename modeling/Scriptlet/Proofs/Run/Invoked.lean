import Scriptlet.Proofs.Run.CallGraph
import Scriptlet.Proofs.Run.Recording

/-!
# Which functions a run invokes

A run tells the start of every call of a script function. All functions whose start is told in a
call are reached from the function that was called, along live calls. This is said with the names
that are told: in a program made by hand, several functions may be told under one name.

## Main definitions

* `Run.Starts` — the functions whose start a run tells

## Main results

* `Interpreter.starts_invoke` — a call starts only functions that it reaches
-/

namespace Scriptlet

variable {σ α β : Type}

/-- A run tells the starts of calls of these functions only. -/
def Run.Starts (D : String → Prop) (m : Run σ α) : Prop :=
  ∀ h name depth, .invoke name depth ∈ (m h).events → D name

namespace Run.Starts

variable {D : String → Prop}

theorem of_step {m : Run σ α} {es : List Event} (hm : ∀ h, (m h).events = es)
    (hes : ∀ name depth, .invoke name depth ∈ es → D name) : m.Starts D := by
  intro h name depth hstart
  rw [hm] at hstart
  exact hes name depth hstart

theorem bind {m : Run σ α} {f : α → Run σ β} (hm : m.Starts D) (hf : ∀ a, (f a).Starts D) :
    (m >>= f).Starts D := by
  intro h name depth hstart
  rcases ho : m h with ⟨e | a, h₁, es⟩
  · rw [bind_of_error f ho] at hstart
    exact hm h name depth (by rwa [ho])
  · rw [bind_of_ok f ho] at hstart
    rcases List.mem_append.1 hstart with hstart | hstart
    · exact hm h name depth (by rwa [ho])
    · exact hf a h₁ name depth hstart

end Run.Starts

/-- The comparison of runs with nothing, for those that start only some functions. -/
def starting (σ : Type) (D : String → Prop) : Simulation σ σ where
  Values := Eq
  Runs _ m _ := m.Starts D
  refl _ := rfl
  pure _ := .of_step (fun _ => rfl) (by simp)
  bind hQ hm hf := hm.bind fun a => hf a a (hQ a)
  fail _ := .of_step (fun _ => rfl) (by simp)
  operate _ _ _ _ := .of_step (fun _ => rfl) (by simp)
  declare _ _ := .of_step (fun _ => rfl) (by simp)
  returned _ _ := .of_step (fun _ => rfl) (by simp)
  returnedVoid _ := .of_step (fun _ => rfl) (by simp)

theorem starting_callNative (natives : Registry σ) (D : String → Prop) :
    (starting σ D).Natives natives natives := by
  refine @Simulation.natives _ _ (starting σ D) _ _ rfl
    (fun _ _ => .of_step (fun _ => rfl) (by simp)) ?_
  intro i f f' _ _ args args' span _
  refine .of_step (fun h => show _ = ([] : List Event) from ?_) (by simp)
  rw [Run.onHost_apply]

namespace Interpreter

variable (it : Interpreter σ)

/-- A call starts only functions that it reaches. -/
theorem starts_invoke (budget : Nat) : ∀ (f : ScriptFunction) (args : List Value) (span : Span),
    (it.invoke budget f args span).Starts
      fun name => ∃ g, Relation.ReflTransGen it.program.Calls f g ∧ g.name.name = name := by
  induction budget with
  | zero =>
    intro f args span
    rw [invoke_zero]
    refine .bind ?_ fun _ => .of_step (fun _ => rfl) (by simp)
    exact @Simulation.checkArity _ _ (starting σ _) _ _ _ _
  | succ budget ih =>
    intro f args span
    rw [invoke_succ]
    refine @Simulation.enter _ _ (starting σ _) (it.callAt budget) (it.callAt budget) f _
      (it.config.maxCallDepth.toNat - budget) (.of_step (fun _ => rfl) ?_) ?_ _ _
      (Simulation.values_refl args) span
    · intro name depth hstart
      cases List.mem_singleton.1 hstart
      exact ⟨f, .refl, rfl⟩
    · intro c hc args _ span hargs
      rw [callAt]
      cases hd : it.program.get? c.name with
      | none => exact .of_step (fun _ => rfl) (by simp)
      | some d =>
        cases d with
        | native i => exact starting_callNative it.natives _ i span hargs
        | script g =>
          intro h name depth hstart
          obtain ⟨g', hg', hname⟩ := ih g args span h name depth hstart
          exact ⟨g', .head ⟨c, hc, hd⟩ hg', hname⟩

end Interpreter

end Scriptlet
