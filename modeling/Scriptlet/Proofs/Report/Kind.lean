import Mathlib
import Scriptlet.Proofs.Report.ReadBack

/-!
# Which kinds of values a report keeps

The report of a run that succeeds is read back as a report of success. Its value is of the kind that
it was, except for a number that is not finite. There is no text for such a number: it is written as
`null`, as `void` is, and so it is `void` that is read back.

## Main definitions

* `Value.Written` — values that there is a text for

## Main results

* `Value.exists_ofJson?` — every value is read back as some value, and most as one of their kind
* `Report.keeps_kind` — the kind of a run's value is kept exactly if the value is written
-/

namespace Scriptlet

namespace Value

/-- There is a text for the value: it is no infinite number, and none that is not a number. -/
def Written : Value → Prop
  | number x => x.isFinite
  | bool _ | string _ | void => True

/-- A value is read back as a value of its kind if it is written, and else as `void`. -/
theorem exists_ofJson? (v : Value) :
    ∃ w, ofJson? v.toJson = some w ∧ (v.Written → w.kind = v.kind) ∧ (¬ v.Written → w = void) := by
  cases v with
  | number x =>
    by_cases hx : x.isFinite
    · obtain ⟨n, y, hn, hy⟩ := JsonNumber.exists_float?_of_isFinite hx
      refine ⟨number y, ?_, fun _ => rfl, fun h => absurd hx h⟩
      rw [toJson, Json.float, hn, ofJson?, hy, Option.map_some]
    · refine ⟨void, ?_, fun h => absurd h hx, fun _ => rfl⟩
      rw [toJson, Json.float, JsonNumber.ofFloat?_eq_none (Bool.eq_false_iff.2 hx)]
      rfl
  | bool | string | void => exact ⟨_, rfl, fun _ => rfl, fun h => absurd trivial h⟩

theorem kind_ne_of_not_written {v : Value} (h : ¬ v.Written) : v.kind ≠ .void := by
  cases v with
  | number => nofun
  | bool | string | void => exact absurd trivial h

theorem kind_eq_void {v : Value} (h : v.kind = .void) : v = void := by
  cases v with
  | void => rfl
  | number | bool | string => cases h

end Value

namespace Report

/-- **Reports keep the kinds of values**, except for what is not written. If a run succeeds then the
text of its report is read back as a report of success, whose value is the same if it is no number.
Its kind is the same exactly if the value is written, and it is `void` exactly if the value is
`void` or is not written. -/
theorem keeps_kind {σ : Type} {source : SourceFile} {natives : Registry σ} {host : σ} {v : Value}
    (h : (ofRun source natives host).1 = succeeded v) :
    ∃ w, parse? (ofRun source natives host).1.text = some (succeeded w) ∧
      ((∀ x, v ≠ .number x) → w = v) ∧ (w.kind = v.kind ↔ v.Written) ∧
      (w = .void ↔ v = .void ∨ ¬ v.Written) := by
  obtain ⟨w, hw, hkind, hvoid⟩ := v.exists_ofJson?
  refine ⟨w, ?_, fun hv => ?_, ⟨fun hsame => ?_, hkind⟩, fun hw => ?_, ?_⟩
  · rw [h]
    exact parse?_text_of_value (congrArg some hw)
  · rw [Value.ofJson?_toJson hv] at hw
    exact (Option.some.inj hw).symm
  · by_contra hwritten
    rw [hvoid hwritten] at hsame
    exact Value.kind_ne_of_not_written hwritten hsame.symm
  · by_cases hwritten : v.Written
    · left
      exact Value.kind_eq_void (by rw [← hkind hwritten, hw]; rfl)
    · exact .inr hwritten
  · rintro (rfl | hwritten)
    · exact Value.kind_eq_void (hkind trivial)
    · exact hvoid hwritten

/-- A truth value comes back as itself. -/
theorem keeps_kind_small :
    let source : SourceFile := ⟨"small", "func main() \x7b\nreturn true\n\x7d"⟩
    (ofRun source .empty ()).1 = succeeded (.bool true) ∧
      parse? (ofRun source .empty ()).1.text = some (succeeded (.bool true)) := by
  intro source
  have hreport : (ofRun source .empty ()).1 = succeeded (.bool true) := by decide +kernel
  obtain ⟨w, hread, hsame, -⟩ := keeps_kind hreport
  rw [hread, hsame nofun]
  exact ⟨hreport, rfl⟩

/-- The quotient of one and zero is a number, and comes back as `void`. So not all reports keep the
kind of their value. -/
theorem loses_kind :
    let source : SourceFile := ⟨"main.yal", "func main() \x7b\n  return 1 / 0\n\x7d\n"⟩
    (ofRun source .empty ()).1 = succeeded (.number (1 / 0)) ∧
      parse? (ofRun source .empty ()).1.text = some (succeeded .void) ∧
      ¬ ∀ (source : SourceFile) (natives : Registry Unit) (v : Value),
        (ofRun source natives ()).1 = succeeded v →
          ∃ w, parse? (ofRun source natives ()).1.text = some (succeeded w) ∧ w.kind = v.kind := by
  intro source
  have hreport : (ofRun source .empty ()).1 = succeeded (.number (1 / 0)) := by decide +kernel
  have hvoid : Value.ofJson? (Value.number (1 / 0)).toJson = some .void := by
    rw [Value.toJson, Json.float, JsonNumber.ofFloat?_eq_none (by decide +kernel)]
    rfl
  have hread : parse? (ofRun source .empty ()).1.text = some (succeeded .void) := by
    rw [hreport]
    exact parse?_text_of_value (congrArg some hvoid)
  refine ⟨hreport, hread, fun h => ?_⟩
  obtain ⟨w, hw, hkind⟩ := h source .empty _ hreport
  have hsame : succeeded .void = succeeded w := Option.some.inj (hread.symm.trans hw)
  obtain rfl : Value.void = w := by simpa [succeeded] using hsame
  cases hkind

end Report

end Scriptlet
