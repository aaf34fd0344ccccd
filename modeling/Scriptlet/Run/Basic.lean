import Scriptlet.Run.Error
import Scriptlet.Run.Event

/-!
# Runs

A run works on the state `σ` of a host. It ends with a value or an error, leaves the host in some
state, and has told a row of events on the way. An error ends the run, but what was done to the
host and told before stays.
-/

namespace Scriptlet

variable {σ α β : Type}

/-- How a run ended. -/
structure Outcome (σ α : Type) where
  result : Except RuntimeError α
  host : σ
  events : List Event

/-- A computation on the state of a host that can fail and that tells events. -/
def Run (σ α : Type) : Type := σ → Outcome σ α

namespace Run

instance : Monad (Run σ) where
  pure a h := ⟨.ok a, h, []⟩
  bind m f h :=
    match m h with
    | ⟨.ok a, h, before⟩ =>
      let o := f a h
      ⟨o.result, o.host, before ++ o.events⟩
    | ⟨.error e, h, before⟩ => ⟨.error e, h, before⟩

/-- Ends the run. -/
def fail (e : RuntimeError) : Run σ α := fun h => ⟨.error e, h, []⟩

/-- Ends the run if there is an error. -/
def ofExcept (r : Except RuntimeError α) : Run σ α := fun h => ⟨r, h, []⟩

/-- Tells an event. -/
def tell (e : Event) : Run σ Unit := fun h => ⟨.ok (), h, [e]⟩

/-- Lets the host act; if it fails, so does the run. -/
def onHost (action : σ → Except String α × σ) (error : String → RuntimeError) : Run σ α := fun h =>
  match action h with
  | (.ok a, h) => ⟨.ok a, h, []⟩
  | (.error message, h) => ⟨.error (error message), h, []⟩

/-- What follows a run that gave a value goes on from where that run left the host. -/
theorem bind_of_ok {m : Run σ α} {h h' : σ} {a : α} {es : List Event} (f : α → Run σ β)
    (hm : m h = ⟨.ok a, h', es⟩) :
    (m >>= f) h = ⟨(f a h').result, (f a h').host, es ++ (f a h').events⟩ := by
  simp [bind, hm]

/-- Nothing follows a run that failed. -/
theorem bind_of_error {m : Run σ α} {h h' : σ} {e : RuntimeError} {es : List Event}
    (f : α → Run σ β) (hm : m h = ⟨.error e, h', es⟩) : (m >>= f) h = ⟨.error e, h', es⟩ := by
  simp [bind, hm]

instance : LawfulMonad (Run σ) :=
  LawfulMonad.mk' (Run σ)
    (fun m => by
      funext h
      simp only [Functor.map]
      rcases m h with ⟨_ | a, h', es⟩
      · rfl
      · exact congrArg (Outcome.mk (.ok a) h') (List.append_nil es))
    (fun _ _ => rfl)
    (fun m f g => by
      funext h
      simp only [bind]
      rcases m h with ⟨_ | a, h', es⟩
      · rfl
      · simp only
        rcases f a h' with ⟨_ | _, _, _⟩ <;> simp)

end Run

end Scriptlet
