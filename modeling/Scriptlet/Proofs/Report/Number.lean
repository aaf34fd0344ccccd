import Mathlib
import Scriptlet.Proofs.Json.Scaling
import Scriptlet.Proofs.Report.ReadBack

/-!
# What becomes of the numbers in reports

The report of a run that ends in a finite number says which number that is, and it is read back as a
report of success with a finite number of the same sign. But that one may differ from it in its last
bits, even if both are integers.

## Main results

* `Report.keeps_number` — how near the number is that is read back, and when it is the same
* `Report.changes_number` — it is not always the same
-/

namespace Scriptlet

namespace Report

/-- **Reports nearly keep finite numbers.** If a run ends in a finite number then the text of its
report says which one it is. The text is read back as a report of success with a number of the same
sign that is at most eight units in the last place away, and with the number itself if its digits
and its power of ten need no rounding. -/
theorem keeps_number {σ : Type} {source : SourceFile} {natives : Registry σ} {host : σ} {x : Float}
    (hx : x.isFinite) (h : (ofRun source natives host).1 = succeeded (.number x)) :
    ∃ n y, JsonNumber.ofFloat? x = some n ∧ (∀ x', JsonNumber.ofFloat? x' = some n → x' = x) ∧
      parse? (ofRun source natives host).1.text = some (succeeded (.number y)) ∧
      JsonNumber.Beside x y ∧ (n.Exact → y = x) := by
  obtain ⟨n, y, hn, hy⟩ := JsonNumber.exists_float?_of_isFinite hx
  obtain ⟨hbeside, hexact⟩ := JsonNumber.float?_of_ofFloat? hn hy
  refine ⟨n, y, hn, fun x' hx' => JsonNumber.ofFloat?_inj hx' hn, ?_, hbeside, hexact⟩
  have hvalue : Value.ofJson? (Value.number x).toJson = some (.number y) := by
    rw [Value.toJson, Json.float, hn, Value.ofJson?, hy, Option.map_some]
  rw [h]
  exact parse?_text_of_value (congrArg some hvalue)

/-- Three times the tenth has 17 digits, but they stand for a multiple of four, and so it comes
back. -/
theorem keeps_number_tenths :
    let source : SourceFile := ⟨"tenths", "func main() \x7b\nreturn 3 * 1 / 10\n\x7d"⟩
    (ofRun source .empty ()).1 = succeeded (.number (3 * 0.1)) ∧
      JsonNumber.ofFloat? (3 * 0.1) = some ⟨false, ['0'], some "30000000000000004".toList, none⟩ ∧
      parse? (ofRun source .empty ()).1.text = some (succeeded (.number (3 * 0.1))) := by
  intro source
  obtain ⟨hfinite, hreport, hwritten⟩ : (3 * 0.1 : Float).isFinite ∧
      (ofRun source .empty ()).1 = succeeded (.number (3 * 0.1)) ∧
      JsonNumber.ofFloat? (3 * 0.1) =
        some ⟨false, ['0'], some "30000000000000004".toList, none⟩ := by decide +kernel
  obtain ⟨n, y, hn, -, hread, -, hexact⟩ := keeps_number hfinite hreport
  obtain rfl := Option.some.inj (hwritten.symm.trans hn)
  rw [hread, hexact ⟨⟨7500000000000001, 2, by decide, rfl⟩, by decide⟩]
  exact ⟨hreport, hwritten, rfl⟩

/-- The greatest integer below `2 ^ 53` is written as it is, but its digits and the zero behind the
point are collected to a number of 54 bits, and it comes back as the integer before. So not all
reports keep their number. -/
theorem changes_number :
    let source : SourceFile := ⟨"main.yal", "func main() \x7b\n  return 9007199254740991\n\x7d\n"⟩
    (ofRun source .empty ()).1 = succeeded (.number 9007199254740991) ∧
      parse? (ofRun source .empty ()).1.text = some (succeeded (.number 9007199254740990)) ∧
      ¬ ∀ (source : SourceFile) (natives : Registry Unit) (x : Float), x.isFinite →
        (ofRun source natives ()).1 = succeeded (.number x) →
          parse? (ofRun source natives ()).1.text = some (succeeded (.number x)) := by
  intro source
  obtain ⟨hfinite, hother, hreport, hvalue⟩ : (9007199254740991 : Float).isFinite ∧
      succeeded (.number 9007199254740990) ≠ succeeded (.number 9007199254740991) ∧
      (ofRun source .empty ()).1 = succeeded (.number 9007199254740991) ∧
      Value.ofJson? (Value.number 9007199254740991).toJson =
        some (.number 9007199254740990) := by decide +kernel
  have hread : parse? (ofRun source .empty ()).1.text =
      some (succeeded (.number 9007199254740990)) := by
    rw [hreport]
    exact parse?_text_of_value (congrArg some hvalue)
  exact ⟨hreport, hread, fun h =>
    hother (Option.some.inj (hread.symm.trans (h source .empty _ hfinite hreport)))⟩

end Report

end Scriptlet
