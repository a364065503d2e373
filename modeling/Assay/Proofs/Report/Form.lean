import Assay.Proofs.Report.Payload
import Assay.Proofs.Spec.Belonging

/-!
# The form of reports

What a file reporter is about to write is a value, the payload, and before it is written it is held
against a form that says which names must be there and what may stand under them.  Of all that the
form asks for only the mode and the mark of a record can be missed.

* `IsObject` — an object with required names and forms under names;
* `IsRecordForm`, `IsPayload` — the forms of a record and of a report;
* `complaint?_eq_none_iff_isPayload` — the records are not complained about exactly if the payload has
  the form of a report;
* `render_of_isPayload` — then the text of the payload is what is written.
-/

namespace Assay.Report

open Grammar (Under Has IsText IsMode IsTruthValue IsListOf)
open Value (Entries)

/-! ### Forms -/

/-- One of the four statuses. -/
def IsStatus (v : Value) : Prop := ∃ s : Status, v.unwrapped = .str s.name

/-- An integer, or a double that is one. -/
def IsInteger (v : Value) : Prop :=
  (∃ i, v = .int i) ∨ ∃ x i, v.unwrapped = .float x ∧ x.toInt? = some i

/-- A mapping where the required names are there, and what stands under a name has the form of that
name.  Under other names there may be anything. -/
def IsObject (required : List String) (forms : List (String × (Value → Prop))) (v : Value) : Prop :=
  ∃ es, v = .dict es ∧ (∀ n ∈ required, Has es n) ∧ ∀ f ∈ forms, ∀ w, Under es f.1 w → f.2 w

/-- The form of the specification in a report. -/
def IsTitle : Value → Prop :=
  IsObject ["name", "version"] [("name", IsText), ("version", IsText)]

/-- The form of a summary. -/
def IsSummary : Value → Prop :=
  IsObject ["total", "passed", "failed", "skipped", "errors", "success"]
    [("total", IsInteger), ("passed", IsInteger), ("failed", IsInteger), ("skipped", IsInteger),
      ("errors", IsInteger), ("success", IsTruthValue)]

/-- The form of a record. -/
def IsRecordForm : Value → Prop :=
  IsObject ["id", "path", "op", "status", "compare"]
    [("id", IsText), ("path", IsListOf IsText), ("op", IsText), ("status", IsStatus),
      ("compare", IsMode), ("xfail", IsTruthValue), ("message", IsText), ("error_kind", IsText)]

/-- The form of a report. -/
def IsPayload : Value → Prop :=
  IsObject ["schema_version", "generated_at", "spec", "summary", "cases"]
    [("schema_version", IsText), ("generated_at", IsText), ("spec", IsTitle), ("summary", IsSummary),
      ("cases", IsListOf IsRecordForm)]

/-! ### Payloads -/

/-- The entry of a name, if there is a value for it. -/
def optionalEntry (name : String) (v : Option Value) : Entries :=
  match v with
  | none => []
  | some v => [(.str name, v)]

/-- A record as a value. -/
def Record.toValue (r : Record) : Value :=
  .dict ([
    (.str "id", .str r.id),
    (.str "path", .list (r.path.map .str)),
    (.str "op", .str r.op),
    (.str "status", .str r.status.name),
    (.str "compare", r.compare),
    (.str "xfail", r.xfail)] ++
    optionalEntry "message" (r.message.map .str) ++
    optionalEntry "error_kind" (r.errorKind.map fun k => .str k.name) ++
    optionalEntry "actual" r.actual)

/-- The tally of verdicts as a value. -/
def summaryValue (vs : List Verdict) : Value :=
  let t := Tally.ofVerdicts vs
  .dict [
    (.str "total", .int vs.length),
    (.str "passed", .int t.passed),
    (.str "failed", .int t.failed),
    (.str "skipped", .int t.skipped),
    (.str "errors", .int t.errors),
    (.str "success", .bool (succeeds vs))]

/-- What a file reporter is about to write. -/
def payload (time name version : String) (vs : List Verdict) (rs : List Record) : Value :=
  .dict [
    (.str "schema_version", .str formVersion),
    (.str "generated_at", .str time),
    (.str "spec", .dict [(.str "name", .str name), (.str "version", .str version)]),
    (.str "summary", summaryValue vs),
    (.str "cases", .list (rs.map Record.toValue))]

/-! ### What stands in a payload -/

@[simp] theorem under_nil (n : String) (w : Value) : Under [] n w ↔ False := by
  simp [Under]

@[simp] theorem under_cons (n m : String) (v w : Value) (es : Entries) :
    Under ((.str m, v) :: es) n w ↔ (m = n ∧ w = v) ∨ Under es n w := by
  constructor
  · rintro ⟨k, hk, hn⟩
    rcases List.mem_cons.1 hk with h | h
    · cases h
      exact Or.inl ⟨Option.some.inj hn, rfl⟩
    · exact Or.inr ⟨k, h, hn⟩
  · rintro (⟨rfl, rfl⟩ | ⟨k, hk, hn⟩)
    · exact ⟨_, List.mem_cons_self, rfl⟩
    · exact ⟨k, List.mem_cons_of_mem _ hk, hn⟩

@[simp] theorem under_append (n : String) (w : Value) (es fs : Entries) :
    Under (es ++ fs) n w ↔ Under es n w ∨ Under fs n w := by
  simp only [Under, List.mem_append, or_and_right, exists_or]

@[simp] theorem under_optionalEntry (n m : String) (v : Option Value) (w : Value) :
    Under (optionalEntry m v) n w ↔ m = n ∧ v = some w := by
  cases v with
  | none => simp [optionalEntry]
  | some v => simp [optionalEntry, eq_comm]

theorem isText_str (s : String) : IsText (.str s) := ⟨s, rfl⟩

theorem isInteger_int (i : Int) : IsInteger (.int i) := Or.inl ⟨i, rfl⟩

theorem isListOf_text (ss : List String) : IsListOf IsText (.list (ss.map .str)) := by
  refine ⟨_, rfl, fun x hx => ?_⟩
  obtain ⟨s, -, rfl⟩ := List.mem_map.1 hx
  exact isText_str s

theorem isListOf_map_iff {α : Type} {form : Value → Prop} {f : α → Value} {xs : List α} :
    IsListOf form (.list (xs.map f)) ↔ ∀ x ∈ xs, form (f x) := by
  constructor
  · rintro ⟨_, h, all⟩ x hx
    cases h
    exact all _ (List.mem_map_of_mem hx)
  · intro h
    refine ⟨_, rfl, fun y hy => ?_⟩
    obtain ⟨x, hx, rfl⟩ := List.mem_map.1 hy
    exact h x hx

theorem isMode_iff_ofValue? {v : Value} : IsMode v ↔ ∃ m, Mode.ofValue? v = some m := by
  rw [← @Grammar.mode_eq_nil_iff [] v, Grammar.mode]
  cases Mode.ofValue? v with
  | none => exact iff_of_false (Grammar.problem_ne_nil _) nofun
  | some m => exact iff_of_true rfl ⟨m, rfl⟩

/-- Of what the form asks for in a record, only the mode and the mark can be missed. -/
theorem isRecordForm_toValue_iff (r : Record) :
    IsRecordForm r.toValue ↔ IsMode r.compare ∧ IsTruthValue r.xfail := by
  constructor
  · rintro ⟨es, h, -, forms⟩
    cases h
    exact ⟨forms ("compare", IsMode) (by simp) r.compare (by simp),
      forms ("xfail", IsTruthValue) (by simp) r.xfail (by simp)⟩
  · rintro ⟨mode, mark⟩
    refine ⟨_, rfl, by simp [Has], ?_⟩
    have status : IsStatus (.str r.status.name) := ⟨r.status, rfl⟩
    simp [isText_str, isListOf_text, status, mode, mark]

theorem fits_iff_isRecordForm (r : Record) : r.complaint? = none ↔ IsRecordForm r.toValue := by
  rw [isRecordForm_toValue_iff, isMode_iff_ofValue?, Record.fits_iff, IsTruthValue]
  exact ⟨fun ⟨b, m, hb, hm⟩ => ⟨⟨m, hm⟩, b, hb⟩, fun ⟨⟨m, hm⟩, b, hb⟩ => ⟨b, m, hb, hm⟩⟩

theorem isSummary_summaryValue (vs : List Verdict) : IsSummary (summaryValue vs) :=
  ⟨_, rfl, by simp [Has], by simp [isInteger_int, IsTruthValue]⟩

theorem isTitle_dict (name version : String) :
    IsTitle (.dict [(.str "name", .str name), (.str "version", .str version)]) :=
  ⟨_, rfl, by simp [Has], by simp [isText_str]⟩

/-- **The records are not complained about exactly if the payload has the form of a report.** -/
theorem complaint?_eq_none_iff_isPayload (time name version : String) (vs : List Verdict)
    (rs : List Record) :
    complaint? rs = none ↔ IsPayload (payload time name version vs rs) := by
  have records : complaint? rs = none ↔ IsListOf IsRecordForm (.list (rs.map Record.toValue)) := by
    rw [complaint?_eq_none_iff, isListOf_map_iff]
    simp only [fits_iff_isRecordForm]
  rw [records]
  constructor
  · intro cases
    exact ⟨_, rfl, by simp [Has],
      by simp [isText_str, isTitle_dict, isSummary_summaryValue, cases]⟩
  · rintro ⟨es, h, -, forms⟩
    cases h
    exact forms ("cases", IsListOf IsRecordForm) (by simp) _ (by simp)

/-! ### The text of a payload -/

theorem toJson_str (s : String) : (Value.str s).toJson = .ok (.str s) := rfl

theorem toJsonAll_str (ss : List String) :
    Value.toJsonAll (ss.map .str) = .ok (ss.map .str) := by
  induction ss with
  | nil => rfl
  | cons s ss ih =>
    rw [List.map_cons, Value.toJsonAll, ih]
    rfl

theorem toJsonMembers_append (es fs : Entries) :
    Value.toJsonMembers (es ++ fs) = do
      let ms ← Value.toJsonMembers es
      let ns ← Value.toJsonMembers fs
      return ms ++ ns := by
  induction es with
  | nil =>
    cases h : Value.toJsonMembers fs <;>
      simp [Value.toJsonMembers, h, bind, Except.bind, pure, Except.pure]
  | cons e es ih =>
    obtain ⟨k, v⟩ := e
    rw [List.cons_append, Value.toJsonMembers, ih, Value.toJsonMembers]
    cases Value.keyName k with
    | error f => rfl
    | ok name =>
      cases v.toJson with
      | error f => rfl
      | ok j =>
        cases Value.toJsonMembers es with
        | error f => rfl
        | ok ms => cases Value.toJsonMembers fs <;> rfl

theorem toJsonMembers_optionalEntry (name : String) (v : Option Value) :
    Value.toJsonMembers (optionalEntry name v) =
      Except.map (Record.optional name) (match v with
        | none => .ok none
        | some a => a.toJson.map some) := by
  cases v with
  | none => rfl
  | some a =>
    rw [optionalEntry, Value.toJsonMembers, Value.keyName_str]
    dsimp only
    cases a.toJson <;> rfl

/-- The tree of a record is that of the record as a value. -/
theorem toJson_toValue (r : Record) : r.toValue.toJson = r.toJson := by
  have path : Value.toJson (.list (r.path.map .str)) = .ok (.arr (r.path.map .str)) := by
    rw [Value.toJson, toJsonAll_str]
    rfl
  have text (o : Option String) : Value.toJsonMembers (optionalEntry "message" (o.map .str)) =
      .ok (Record.optional "message" (o.map .str)) := by
    cases o <;> rfl
  have kind (o : Option ErrorKind) :
      Value.toJsonMembers (optionalEntry "error_kind" (o.map fun k => .str k.name)) =
        .ok (Record.optional "error_kind" (o.map fun k => .str k.name)) := by
    cases o <;> rfl
  rw [Record.toValue, Value.toJson, toJsonMembers_append, toJsonMembers_append, toJsonMembers_append,
    text, kind, toJsonMembers_optionalEntry, Record.toJson]
  simp only [Value.toJsonMembers, Value.keyName_str, toJson_str, path]
  cases r.compare.toJson with
  | error f => rfl
  | ok compare =>
    cases r.xfail.toJson with
    | error f => rfl
    | ok xfail =>
      cases r.actual with
      | none => rfl
      | some a =>
        dsimp only
        cases a.toJson <;> rfl

theorem toJsonAll_toValue (rs : List Record) :
    Value.toJsonAll (rs.map Record.toValue) = recordTrees rs := by
  induction rs with
  | nil => rfl
  | cons r rs ih => rw [List.map_cons, Value.toJsonAll, toJson_toValue, ih, recordTrees]

/-- A count of verdicts has its tree, as long as there are not too many of them. -/
theorem toJson_count {n k : Nat} (h : n ≤ k) (hk : k < digitBound) :
    (Value.int n : Value).toJson = .ok (.int n) := by
  obtain ⟨text, ht⟩ := (integerText_succeedsIff n).isOk_iff.2 (h.trans_lt hk)
  rw [Value.toJson, ht]
  rfl

theorem toJson_summaryValue {vs : List Verdict} (few : vs.length < digitBound) :
    (summaryValue vs).toJson = .ok (summary vs) := by
  have count (s : Status) := toJson_count (countStatus_le s vs) few
  have total := toJson_count (Nat.le_refl _) few
  rw [summaryValue, Value.toJson]
  simp only [Value.toJsonMembers, Value.keyName_str, total, count, Tally.ofVerdicts]
  rfl

/-- **A payload of the form of reports is written as it stands**, unless the very number of verdicts
has too many digits. -/
theorem render_of_isPayload {time name version : String} {vs : List Verdict} {rs : List Record}
    (h : IsPayload (payload time name version vs rs)) (few : vs.length < digitBound) :
    render time name version vs rs =
      ((payload time name version vs rs).toJson.map (Json.render .indented)).mapError .fault := by
  have fit := (complaint?_eq_none_iff_isPayload time name version vs rs).2 h
  have cases : (Value.list (rs.map Record.toValue)).toJson = (recordTrees rs).map .arr := by
    rw [Value.toJson, toJsonAll_toValue]
  rw [render, fit, payload, Value.toJson]
  simp only [Value.toJsonMembers, Value.keyName_str, toJson_str, toJson_summaryValue few, cases]
  cases recordTrees rs <;> rfl

end Assay.Report
