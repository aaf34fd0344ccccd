import Mathlib
import Scriptlet.Proofs.Json.Number
import Scriptlet.Report.Json

/-!
# Reading back what hosts are told

Reports, diagnostics, spans and settings are written as JSON objects. Their readers know the names
of the members, find each of them once, and so give back what was written. A member that was left
out is read as missing, also where the members of a span stand among the others.

## Main results

* `Diagnostic.ofJson?_toJson` — a diagnostic is read back, with its suggestion or without one
* `Report.ofJson?_toJson` — only the value of a report can be read back as another one
* `records_read_back` — texts of records give the records back
-/

namespace Scriptlet

open Json (Fields)

/-! ### Records -/

namespace Json

/-- An object all of whose names are known, and no two of them the same, is read member by
member. -/
theorem known?_eq_some {names : List String} {members : List (String × Json)}
    (hnames : ∀ m ∈ members, m.1 ∈ names) (hnodup : (members.map Prod.fst).Nodup) :
    known? names members = some members := by
  have hfilter : members.filter (fun m => m.1 ∈ names) = members :=
    List.filter_eq_self.2 fun m hm => decide_eq_true (hnames m hm)
  rw [known?, hfilter, if_pos hnodup]

theorem lookup_eq_some {members : List (String × Json)} (hnodup : (members.map Prod.fst).Nodup)
    {m : String × Json} (hm : m ∈ members) : members.lookup m.1 = some m.2 := by
  induction members with
  | nil => cases hm
  | cons m' ms ih =>
    obtain ⟨hnot, hnodup⟩ := List.nodup_cons.1 hnodup
    rcases List.mem_cons.1 hm with rfl | hm
    · exact List.lookup_cons_self
    · have hne : (m.1 == m'.1) = false :=
        beq_eq_false_iff_ne.2 fun h => hnot (h ▸ List.mem_map_of_mem hm)
      rw [List.lookup_cons, hne]
      exact ih hnodup hm

theorem natBelow?_nat {bound n : Nat} (h : n < bound) : (nat n).natBelow? bound = some n := by
  rw [nat, JsonNumber.ofNat, natBelow?, JsonNumber.nat?, digitsValue_natDigits]
  exact if_pos h

theorem uint16?_nat (n : UInt16) : (nat n.toNat).uint16? = some n := by
  rw [uint16?, natBelow?_nat n.toNat_lt, Option.map_some, UInt16.ofNat_toNat]

theorem uint32?_nat (n : UInt32) : (nat n.toNat).uint32? = some n := by
  rw [uint32?, natBelow?_nat n.toNat_lt, Option.map_some, UInt32.ofNat_toNat]

theorem uint64?_nat (n : UInt64) : (nat n.toNat).uint64? = some n := by
  rw [uint64?, natBelow?_nat n.toNat_lt, Option.map_some, UInt64.ofNat_toNat]

theorem properMembers_iff {members : List (String × Json)} :
    ProperMembers members ↔ ∀ m ∈ members, m.2.Proper := by
  induction members with
  | nil => simp [ProperMembers]
  | cons m ms ih => rw [ProperMembers, ih, List.forall_mem_cons]

end Json

/-! ### Spans and settings -/

namespace Span

theorem proper_members (s : Span) : ∀ m ∈ s.members, m.2.Proper := by
  simp only [members, List.forall_mem_cons]
  exact ⟨Json.proper_nat _, Json.proper_nat _, Json.proper_nat _, Json.proper_nat _, nofun⟩

/-- A span is read from any object that its members stand in. -/
theorem ofFields?_of_lookup {s : Span} {fs : Fields}
    (h : ∀ m ∈ s.members, fs.lookup m.1 = some m.2) : ofFields? fs = some s := by
  simp only [members, List.forall_mem_cons] at h
  obtain ⟨hline, hcolumn, hendLine, hendColumn, -⟩ := h
  simp only [ofFields?, Fields.required?, hline, hcolumn, hendLine, hendColumn, Json.uint32?_nat]
  rfl

theorem proper_toJson (s : Span) : s.toJson.Proper := by
  rw [toJson, Json.Proper, Json.properMembers_iff]
  exact s.proper_members

theorem ofJson?_toJson (s : Span) : ofJson? s.toJson = some s := by
  have hknown : Json.known? fieldNames s.members = some s.members :=
    Json.known?_eq_some (by simp [members, fieldNames]) (by simp [members])
  rw [ofJson?, toJson, Json.recordFields?, hknown]
  exact ofFields?_of_lookup fun _ => Json.lookup_eq_some (by simp [members])

end Span

namespace Config

theorem proper_toJson (c : Config) : c.toJson.Proper := by
  simp only [toJson, Json.Proper, Json.properMembers_iff, List.forall_mem_cons]
  exact ⟨trivial, Json.proper_nat _, nofun⟩

theorem ofJson?_toJson (c : Config) : ofJson? c.toJson = some c := by
  rw [ofJson?, toJson, Json.recordFields?,
    Json.known?_eq_some (by simp [fieldNames]) (by simp)]
  simp [Fields.defaulted?, List.lookup, Json.string?, Json.uint64?_nat]

end Config

/-! ### Diagnostics -/

theorem ErrorCode.ofJson?_toJson (c : ErrorCode) : ofJson? c.toJson = some c := by
  rw [ofJson?, toJson, Json.uint16?_nat]
  rfl

theorem Category.ofJson?_toJson (c : Category) : ofJson? c.toJson = some c := by
  cases c <;> rfl

theorem Severity.ofJson?_toJson (s : Severity) : ofJson? s.toJson = some s := by
  cases s
  rfl

namespace Diagnostic

theorem proper_toJson (d : Diagnostic) : d.toJson.Proper := by
  simp only [toJson, Json.Proper, Json.properMembers_iff, List.forall_mem_append,
    List.forall_mem_cons]
  refine ⟨⟨⟨⟨trivial, Json.proper_nat _, trivial, trivial, trivial, nofun⟩, d.span.proper_members⟩,
    trivial, nofun⟩, ?_⟩
  rintro m hm
  obtain ⟨s, -, rfl⟩ := List.mem_map.1 hm
  trivial

theorem ofJson?_toJson (d : Diagnostic) (depth : Nat) : ofJson? depth d.toJson = some d := by
  obtain ⟨members, hmembers⟩ : ∃ members, d.toJson = .object members := ⟨_, rfl⟩
  have hnames : ∀ m ∈ members, m.1 ∈ fieldNames := by
    obtain rfl := Json.object.inj hmembers
    cases d.suggestion <;> simp [Span.members, fieldNames]
  have hnodup : (members.map Prod.fst).Nodup := by
    obtain rfl := Json.object.inj hmembers
    cases d.suggestion <;> simp [Span.members]
  have hlookup : ∀ m ∈ members, members.lookup m.1 = some m.2 := fun _ =>
    Json.lookup_eq_some hnodup
  have hsuggestion : Fields.defaulted? members "suggestion" none (Json.orNull? Json.string?) =
      some d.suggestion := by
    obtain rfl := Json.object.inj hmembers
    cases hs : d.suggestion with
    | none => simp [Fields.defaulted?, List.lookup, Span.members]
    | some s =>
      rw [hs] at hlookup
      rw [Fields.defaulted?, hlookup ("suggestion", .string s) (by simp)]
      rfl
  have hothers : ofJson?.othersSound depth d.toJson := by
    rw [hmembers, ofJson?.othersSound, List.all_eq_true]
    intro m hm
    rw [decide_eq_true (hnames m hm), Bool.true_or]
  obtain rfl := Json.object.inj hmembers
  simp only [List.forall_mem_append, List.forall_mem_cons] at hlookup
  obtain ⟨⟨⟨⟨hfile, hcode, hseverity, hcategory, hmessage, -⟩, hspan⟩, hline, -⟩, -⟩ := hlookup
  rw [ofJson?, toJson, Json.objectFields?, Json.known?_eq_some hnames hnodup]
  simp only [Option.bind_eq_bind, Option.bind_some, Fields.required?, hfile, hcode, hseverity,
    hcategory, hmessage, hline, hsuggestion, Span.ofFields?_of_lookup hspan,
    ErrorCode.ofJson?_toJson, Severity.ofJson?_toJson, Category.ofJson?_toJson, Json.string?]
  exact if_pos hothers

theorem parse?_text (d : Diagnostic) : parse? d.toJson.text = some d := by
  rw [parse?, Json.parse?_text d.proper_toJson, Option.bind_eq_bind, Option.bind_some,
    ofJson?_toJson]

end Diagnostic

/-! ### Reports -/

namespace Value

theorem proper_toJson (v : Value) : v.toJson.Proper := by
  cases v with
  | number x =>
    rw [toJson, Json.float]
    split
    · rename_i hn
      exact JsonNumber.proper_ofFloat? hn
    · trivial
  | bool | string | void => trivial

theorem ofJson?_toJson {v : Value} (hv : ∀ x, v ≠ .number x) : ofJson? v.toJson = some v := by
  cases v with
  | number x => exact absurd rfl (hv x)
  | bool | string | void => rfl

end Value

namespace Report

theorem proper_toJson (r : Report) : r.toJson.Proper := by
  simp only [toJson, Json.Proper, Json.properMembers_iff, List.cons_append, List.forall_mem_cons,
    List.forall_mem_append]
  refine ⟨trivial, ?_, ?_⟩ <;> intro m hm
  · obtain ⟨v, -, rfl⟩ := List.mem_map.1 hm
    exact v.proper_toJson
  · obtain ⟨e, -, rfl⟩ := List.mem_map.1 hm
    exact e.proper_toJson

/-- What a report is read back as is decided by what its value is read back as. -/
theorem ofJson?_toJson {r : Report} {value : Option Value}
    (hvalue : r.value.map (fun v => Value.ofJson? v.toJson) = value.map some) :
    ofJson? r.toJson = some { r with value := value } := by
  obtain ⟨success, v, error⟩ := r
  have herror (e : Diagnostic) : Json.orNull?
      (Diagnostic.ofJson? (nestingBelowDiagnostic - 1)) e.toJson = some (some e) :=
    congrArg (Option.map some) (e.ofJson?_toJson _)
  rw [ofJson?, toJson, Json.recordFields?, Json.known?_eq_some
    (by cases v <;> cases error <;> simp [fieldNames]) (by cases v <;> cases error <;> simp)]
  cases v with
  | none =>
    obtain rfl : value = none := by simpa using hvalue.symm
    cases error <;>
      simp [Fields.required?, Fields.defaulted?, List.lookup, Json.bool?, herror]
  | some v =>
    obtain ⟨w, rfl, hw⟩ : ∃ w, value = some w ∧ Value.ofJson? v.toJson = some w := by
      cases value with
      | none => cases hvalue
      | some w => exact ⟨w, rfl, Option.some.inj hvalue⟩
    cases error <;>
      simp [Fields.required?, Fields.defaulted?, List.lookup, Json.bool?, herror, hw]

theorem parse?_text_of_value {r : Report} {value : Option Value}
    (hvalue : r.value.map (fun v => Value.ofJson? v.toJson) = value.map some) :
    parse? r.text = some { r with value := value } := by
  rw [parse?, text, Json.parse?_text r.proper_toJson, Option.bind_eq_bind, Option.bind_some,
    ofJson?_toJson hvalue]

/-- A report whose value is no number is read back. -/
theorem parse?_text {r : Report} (hr : ∀ x, r.value ≠ some (.number x)) :
    parse? r.text = some r := by
  refine parse?_text_of_value ?_
  cases hvalue : r.value with
  | none => rfl
  | some v =>
    rw [Option.map_some, Option.map_some, Value.ofJson?_toJson]
    rintro x rfl
    exact hr x hvalue

theorem value_ofRun {σ : Type} (source : SourceFile) (natives : Registry σ) (host : σ) :
    (ofRun source natives host).1.value =
      (runScript source natives .default host).result.toOption := by
  rw [ofRun]
  cases (runScript source natives .default host).result <;> rfl

end Report

/-- **Records are read back**: reports whose value is no number, diagnostics, spans and settings
come out of their texts as they went in. No value is not taken for `void` on the way, and the report
of any run that gives no number can be handed on as a text. -/
theorem records_read_back :
    (∀ r : Report, (∀ x, r.value ≠ some (.number x)) → Report.parse? r.text = some r) ∧
      (∀ d : Diagnostic, Diagnostic.parse? d.toJson.text = some d) ∧
      (∀ s : Span, (Json.parse? s.toJson.text).bind Span.ofJson? = some s) ∧
      (∀ c : Config, (Json.parse? c.toJson.text).bind Config.ofJson? = some c) ∧
      (∀ success error,
        Report.text ⟨success, none, error⟩ ≠ Report.text ⟨success, some .void, error⟩) ∧
      ∀ (σ : Type) (source : SourceFile) (natives : Registry σ) (host : σ),
        (∀ x, (Report.ofRun source natives host).1.value ≠ some (.number x)) →
          Report.parse? (Report.ofRun source natives host).1.text =
            some (Report.ofRun source natives host).1 := by
  refine ⟨fun r => Report.parse?_text, Diagnostic.parse?_text, fun s => ?_, fun c => ?_,
    fun success error h => ?_, fun σ source natives host => Report.parse?_text⟩
  · rw [Json.parse?_text s.proper_toJson, Option.bind_some, s.ofJson?_toJson]
  · rw [Json.parse?_text c.proper_toJson, Option.bind_some, c.ofJson?_toJson]
  · -- both texts are read back, and to different reports
    have habsent : Report.parse? (Report.text ⟨success, none, error⟩) =
        some ⟨success, none, error⟩ := Report.parse?_text nofun
    have hvoid : Report.parse? (Report.text ⟨success, some .void, error⟩) =
        some ⟨success, some .void, error⟩ := Report.parse?_text nofun
    rw [h, hvoid] at habsent
    cases habsent

set_option maxRecDepth 2000 in
/-- A report may hold `void` and a diagnostic at once, though no run gives both. The empty script
has nothing to run, and the name of its file holds what a string has to escape. -/
theorem records_read_back_small :
    let r : Report := ⟨false, some .void, some (.quoting "é" ⟨0⟩ "\x00\u2028" default "\"")⟩
    let source : SourceFile := ⟨"a\\\nb", ""⟩
    Report.parse? r.text = some r ∧
      (Report.ofRun source .empty ()).1.value = none ∧
      Report.parse? (Report.ofRun source .empty ()).1.text =
        some (Report.ofRun source .empty ()).1 := by
  intro r source
  have hrun : (runScript source .empty .default ()).result =
      .error (.runtime (.missingEntryPoint "main")) := by cbv
  have hvalue : (Report.ofRun source .empty ()).1.value = none := by
    rw [Report.value_ofRun, hrun]
    rfl
  refine ⟨records_read_back.1 r nofun, hvalue,
    records_read_back.2.2.2.2.2 Unit source .empty () fun x => ?_⟩
  rw [hvalue]
  nofun

end Scriptlet
