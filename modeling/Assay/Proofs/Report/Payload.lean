import Assay.Proofs.Json.Tree
import Assay.Proofs.Run.Ruling
import Assay.Proofs.Value.Canonical
import Assay.Report.Record

/-!
# What a report says

The text of a report is that of a JSON tree, which it is read as.  The tree names the specification,
has one record for each verdict, in their order, and a tally that counts these records.

* `RecordOf` — what the record of a verdict says, `Tallies` — what a summary says of records;
* `IsReport` — a text that reports verdicts;
* `isReport_of_render` — every text that is rendered from the records of verdicts reports these
  verdicts.
-/

namespace Assay

/-! ### Members of objects -/

namespace Json

@[simp] theorem member?_nil (name : String) : (obj []).member? name = none := rfl

/-- The member of a name stands in the second of two parts if it is there at all. -/
@[simp] theorem member?_append (name : String) (ms ns : List (String × Json)) :
    (obj (ms ++ ns)).member? name = ((obj ns).member? name).or ((obj ms).member? name) := by
  rw [member?, List.reverse_append, List.find?_append, Option.map_or]
  rfl

@[simp] theorem member?_cons (name n : String) (j : Json) (ms : List (String × Json)) :
    (obj ((n, j) :: ms)).member? name =
      ((obj ms).member? name).or (if n = name then some j else none) := by
  rw [← List.singleton_append, member?_append]
  congr 1
  by_cases h : n = name <;> simp [member?, h]

@[simp] theorem member?_optional (name n : String) (j : Option Json) :
    (obj (Report.Record.optional n j)).member? name = if n = name then j else none := by
  cases j with
  | none => simp [Report.Record.optional, member?_nil]
  | some j => simp [Report.Record.optional, member?_cons, member?_nil]

theorem readable_indented : Style.indented.Readable := by
  refine ⟨⟨[], rfl, fun _ h => by cases h⟩, ⟨[' '], rfl, ?_⟩, fun _ c => ⟨c, rfl⟩⟩
  intro c hc
  cases List.mem_singleton.1 hc
  rfl

theorem shortItems_of_forall {xs : List Json} (h : ∀ x ∈ xs, x.Short) : ShortItems xs := by
  induction xs with
  | nil => trivial
  | cons x xs ih =>
    rw [List.forall_mem_cons] at h
    exact ⟨h.1, ih h.2⟩

theorem shortMembers_append {ms ns : List (String × Json)} (hm : ShortMembers ms)
    (hn : ShortMembers ns) : ShortMembers (ms ++ ns) := by
  induction ms with
  | nil => exact hn
  | cons m ms ih => exact ⟨hm.1, ih hm.2⟩

end Json

/-! ### Trees of modes -/

namespace Value

/-- A value that names a mode has the tree of that name. -/
theorem toJson_of_mode {v : Value} {m : Mode} {j : Json} (hm : Mode.ofValue? v = some m)
    (hj : v.toJson = .ok j) : j = .str m.name := by
  unfold Mode.ofValue? at hm
  split at hm
  · rename_i s hs
    have named : m.name = s := eq_of_beq (List.find?_some hm :)
    rw [named]
    cases v with
    | str t =>
      cases hs
      cases hj
      rfl
    | scalar e item =>
      cases e <;> cases item <;> cases hj <;> cases hs
      all_goals rfl
    | array e w => cases hj
    | _ => cases hs
  · cases hm

end Value

namespace Report

/-! ### Records -/

/-- What the record of a verdict says. -/
structure RecordOf (v : Verdict) (record : Json) : Prop where
  id : record.member? "id" = some (.str v.case.test.id)
  path : record.member? "path" = some (.arr (v.case.path.map .str))
  op : record.member? "op" = some (.str v.case.test.op)
  status : record.member? "status" = some (.str v.status.name)
  /-- The mode is the one that was in effect. -/
  compare : ∃ m, Mode.ofValue? v.case.compare = some m ∧ record.member? "compare" = some (.str m.name)
  xfail : ∃ b, v.case.test.xfail = .bool b ∧ record.member? "xfail" = some (.bool b)
  /-- A message is told unless it is empty. -/
  message : record.member? "message" = (v.message.filter (· ≠ "")).map .str
  errorKind : record.member? "error_kind" = v.errorKind.map fun k => .str k.name
  /-- Errors, and only they, have a kind. -/
  error_iff : (record.member? "error_kind").isSome = true ↔ v.status = .error
  /-- The actual value is told if there is one, in its reported form. -/
  actual : Option.Rel (Relation.Comp (fun a w => a.reported = .ok w) fun w j => w.toJson = .ok j)
    v.actual (record.member? "actual")

/-- The status that a record says. -/
def statusOf? (record : Json) : Option Status :=
  match record.member? "status" with
  | some (.str name) => Status.ofName? name
  | _ => none

theorem RecordOf.statusOf {v : Verdict} {record : Json} (h : RecordOf v record) :
    statusOf? record = some v.status := by
  rw [statusOf?, h.status]
  exact Status.ofName?_name v.status

theorem Record.ofVerdict_eq_ok {v : Verdict} {r : Record} (h : Record.ofVerdict v = .ok r) :
    ∃ actual, Option.Rel (fun a w => a.reported = .ok w) v.actual actual ∧
      r = ⟨v.case.test.id, v.case.path, v.case.test.op, v.status, v.case.compare, v.case.test.xfail,
        v.message.filter (· ≠ ""), v.errorKind, actual⟩ := by
  unfold ofVerdict at h
  cases hv : v.actual with
  | none =>
    rw [hv] at h
    cases h
    exact ⟨none, .none, rfl⟩
  | some a =>
    rw [hv] at h
    obtain ⟨actual, ha, ⟨⟩⟩ := bind_eq_ok_iff.1 h
    obtain ⟨w, hw, rfl⟩ := map_eq_ok_iff.1 ha
    exact ⟨some w, .some hw, rfl⟩

theorem Record.toJson_eq_ok {r : Record} {j : Json} (h : r.toJson = .ok j) :
    ∃ compare xfail actual, r.compare.toJson = .ok compare ∧ r.xfail.toJson = .ok xfail ∧
      Option.Rel (fun a i => a.toJson = .ok i) r.actual actual ∧
      j = .obj ([("id", .str r.id), ("path", .arr (r.path.map .str)), ("op", .str r.op),
        ("status", .str r.status.name), ("compare", compare), ("xfail", xfail)] ++
        optional "message" (r.message.map .str) ++
        optional "error_kind" (r.errorKind.map fun k => .str k.name) ++
        optional "actual" actual) := by
  obtain ⟨compare, hc, h⟩ := bind_eq_ok_iff.1 h
  obtain ⟨xfail, hx, h⟩ := bind_eq_ok_iff.1 h
  cases hr : r.actual with
  | none =>
    rw [hr] at h
    cases h
    exact ⟨compare, xfail, none, hc, hx, .none, rfl⟩
  | some a =>
    rw [hr] at h
    obtain ⟨actual, ha, ⟨⟩⟩ := bind_eq_ok_iff.1 h
    obtain ⟨i, hi, rfl⟩ := map_eq_ok_iff.1 ha
    exact ⟨compare, xfail, some i, hc, hx, .some hi, rfl⟩

theorem Record.fits_iff {r : Record} :
    r.complaint? = none ↔ ∃ b m, r.xfail = .bool b ∧ Mode.ofValue? r.compare = some m := by
  unfold complaint?
  split
  · rename_i b hb
    split
    · rename_i m hm
      exact iff_of_true rfl ⟨b, m, hb, hm⟩
    · rename_i hm
      simp [hm]
  · rename_i h
    simp only [reduceCtorEq, false_iff]
    rintro ⟨b, m, hb, -⟩
    exact h b hb

theorem rel_comp {α β γ : Type} {R : α → β → Prop} {S : β → γ → Prop} {o : Option α} {p : Option β}
    {q : Option γ} (hR : Option.Rel R o p) (hS : Option.Rel S p q) :
    Option.Rel (Relation.Comp R S) o q := by
  cases hR with
  | none =>
    cases hS
    exact .none
  | some hab =>
    cases hS with
    | some hbc => exact .some ⟨_, hab, hbc⟩

/-- **The record of a verdict says what the verdict says.** -/
theorem recordOf_of_toJson {v : Verdict} {r : Record} {j : Json} (hr : Record.ofVerdict v = .ok r)
    (hj : r.toJson = .ok j) (hfit : r.complaint? = none)
    (hv : v.errorKind ≠ none ↔ v.status = .error) : RecordOf v j := by
  obtain ⟨actual, ha, rfl⟩ := Record.ofVerdict_eq_ok hr
  obtain ⟨compare, xfail, shown, hc, hx, hs, rfl⟩ := Record.toJson_eq_ok hj
  obtain ⟨b, m, hb, hm⟩ := Record.fits_iff.1 hfit
  obtain rfl := Value.toJson_of_mode hm hc
  obtain rfl : xfail = .bool b := by
    dsimp only at hb
    rw [hb] at hx
    exact (Except.ok.inj hx).symm
  have kinds : (v.errorKind.map fun k => Json.str k.name).isSome = true ↔ v.status = .error := by
    rw [Option.isSome_map, Option.isSome_iff_ne_none]
    exact hv
  have actuals := rel_comp ha hs
  -- Every name is looked up among the members; only the optional ones can be missing.
  constructor
  case compare => exact ⟨m, hm, by simp⟩
  case xfail => exact ⟨b, hb, by simp⟩
  case error_iff => simpa using kinds
  case actual => simpa using actuals
  all_goals simp

/-! ### Summaries -/

/-- The number of records that say a status. -/
def countRecords (s : Status) (records : List Json) : Nat :=
  records.countP fun r => statusOf? r = some s

/-- The name under which the records of a status are counted. -/
def countName : Status → String
  | .pass => "passed"
  | .fail => "failed"
  | .skip => "skipped"
  | .error => "errors"

/-- What a summary says of records: it is their tally. -/
structure Tallies (records : List Json) (summary : Json) : Prop where
  total : summary.member? "total" = some (.int records.length)
  count : ∀ s, summary.member? (countName s) = some (.int (countRecords s records))
  /-- Every record is counted under one status. -/
  whole : (Status.all.map fun s => countRecords s records).sum = records.length
  success : summary.member? "success" =
    some (.bool (decide (countRecords .fail records = 0 ∧ countRecords .error records = 0)))

/-- The records of verdicts count like the verdicts. -/
theorem countRecords_eq {vs : List Verdict} {records : List Json}
    (h : List.Forall₂ RecordOf vs records) (s : Status) :
    countRecords s records = countStatus s vs := by
  induction h with
  | nil => rfl
  | @cons v record vs records hv _ ih =>
    rw [countRecords] at ih ⊢
    rw [countStatus] at ih ⊢
    rw [List.countP_cons, List.countP_cons, ih, hv.statusOf]
    simp only [Option.some.injEq]

/-- Verdicts succeed exactly if no failure and no error is counted among them. -/
theorem succeeds_eq_decide (vs : List Verdict) :
    succeeds vs = decide (countStatus .fail vs = 0 ∧ countStatus .error vs = 0) := by
  rw [Bool.eq_iff_iff, Tally.succeeds_iff, decide_eq_true_eq]
  rfl

/-- **The summary of verdicts is the tally of their records.** -/
theorem tallies_summary {vs : List Verdict} {records : List Json}
    (h : List.Forall₂ RecordOf vs records) : Tallies records (summary vs) := by
  have counted := countRecords_eq h
  have whole := Tally.ofVerdicts_total vs
  constructor
  case total => simp [summary, h.length_eq]
  case count =>
    intro s
    rw [counted]
    cases s <;> simp [summary, countName, Tally.ofVerdicts]
  case whole =>
    simp only [Status.all, List.map_cons, List.map_nil, List.sum_cons, List.sum_nil, counted,
      ← h.length_eq, ← whole, Tally.total, Tally.ofVerdicts]
    omega
  case success =>
    rw [counted, counted, ← succeeds_eq_decide]
    simp [summary]

/-! ### Reports -/

/-- What the tree of a report says: the specification, a record for each verdict in their order, and
the tally of these records. -/
structure ReportOf (name version : String) (vs : List Verdict) (report : Json) : Prop where
  spec : report.member? "spec" = some (.obj [("name", .str name), ("version", .str version)])
  content : ∃ records s, report.member? "cases" = some (.arr records) ∧
    List.Forall₂ RecordOf vs records ∧ report.member? "summary" = some s ∧ Tallies records s

/-- A text that reports verdicts: it is that of a tree that says so, and is read as this tree unless
the very number of verdicts has too many digits. -/
def IsReport (name version : String) (vs : List Verdict) (text : String) : Prop :=
  ∃ report, ReportOf name version vs report ∧ text = Json.render .indented report ∧
    (vs.length < digitBound → Json.parse text = .ok report)

theorem recordTrees_eq_ok {rs : List Record} {js : List Json} (h : recordTrees rs = .ok js) :
    List.Forall₂ (fun r j => r.toJson = .ok j) rs js := by
  induction rs generalizing js with
  | nil =>
    cases h
    exact .nil
  | cons r rs ih =>
    obtain ⟨j, hj, h⟩ := bind_eq_ok_iff.1 h
    obtain ⟨js, hjs, ⟨⟩⟩ := bind_eq_ok_iff.1 h
    exact .cons hj (ih hjs)

theorem complaint?_eq_none_iff {rs : List Record} :
    complaint? rs = none ↔ ∀ r ∈ rs, r.complaint? = none := by
  simp [complaint?]

/-- What is rendered is the text of a tree with the records that were collected, which all fit. -/
theorem render_eq_ok {time name version : String} {vs : List Verdict} {rs : List Record}
    {text : String} (h : render time name version vs rs = .ok text) :
    (∀ r ∈ rs, r.complaint? = none) ∧ ∃ js, recordTrees rs = .ok js ∧
      text = Json.render .indented (.obj [("schema_version", .str formVersion),
        ("generated_at", .str time), ("spec", .obj [("name", .str name), ("version", .str version)]),
        ("summary", summary vs), ("cases", .arr js)]) := by
  unfold render at h
  split at h
  · split at h <;> cases h
  · rename_i fit
    split at h
    · cases h
    · rename_i js hjs
      cases h
      exact ⟨complaint?_eq_none_iff.1 fit, js, hjs, rfl⟩

/-! ### Reading a report -/

theorem short_arr_str (ss : List String) : (Json.arr (ss.map .str)).Short := by
  refine Json.shortItems_of_forall ?_
  intro j hj
  obtain ⟨s, -, rfl⟩ := List.mem_map.1 hj
  exact True.intro

theorem shortMembers_optional {name : String} {j : Option Json} (h : ∀ i ∈ j, i.Short) :
    Json.ShortMembers (Record.optional name j) := by
  cases j with
  | none => exact True.intro
  | some i => exact ⟨h i rfl, True.intro⟩

/-- The tree of a record has no integer with too many digits. -/
theorem Record.short_of_toJson {r : Record} {j : Json} (h : r.toJson = .ok j) : j.Short := by
  obtain ⟨compare, xfail, actual, hc, hx, ha, rfl⟩ := Record.toJson_eq_ok h
  have texts {o : Option Json} (h : ∀ i ∈ o, ∃ s, i = .str s) : ∀ i ∈ o, i.Short := by
    intro i hi
    obtain ⟨s, rfl⟩ := h i hi
    exact True.intro
  refine Json.shortMembers_append (Json.shortMembers_append (Json.shortMembers_append ?_ ?_) ?_) ?_
  · exact ⟨True.intro, short_arr_str r.path, True.intro, True.intro, Value.short_of_toJson _ hc,
      Value.short_of_toJson _ hx, True.intro⟩
  · exact shortMembers_optional (texts (by simp))
  · exact shortMembers_optional (texts (by simp))
  · refine shortMembers_optional ?_
    generalize r.actual = a at ha
    intro i hi
    cases ha with
    | none => cases hi
    | some hw =>
      cases hi
      exact Value.short_of_toJson _ hw

theorem short_recordTrees {rs : List Record} {js : List Json}
    (h : List.Forall₂ (fun r j => r.toJson = .ok j) rs js) : Json.ShortItems js := by
  induction h with
  | nil => exact True.intro
  | cons hj _ ih => exact ⟨Record.short_of_toJson hj, ih⟩

theorem short_nat {n k : Nat} (h : n ≤ k) (hk : k < digitBound) : (Json.int n : Json).Short :=
  h.trans_lt hk

theorem countStatus_le (s : Status) (vs : List Verdict) : countStatus s vs ≤ vs.length :=
  List.countP_le_length

/-- **What is rendered from the records of verdicts reports these verdicts.** -/
theorem isReport_of_render {time name version : String} {vs : List Verdict} {rs : List Record}
    {text : String} (hv : ∀ v ∈ vs, v.errorKind ≠ none ↔ v.status = .error)
    (hr : List.Forall₂ (fun v r => Record.ofVerdict v = .ok r) vs rs)
    (h : render time name version vs rs = .ok text) : IsReport name version vs text := by
  obtain ⟨fit, js, hjs, rfl⟩ := render_eq_ok h
  have trees := recordTrees_eq_ok hjs
  have records : List.Forall₂ RecordOf vs js := by
    clear h hjs
    induction hr generalizing js with
    | nil =>
      cases trees
      exact .nil
    | cons hvr _ ih =>
      cases trees with
      | cons hj trees =>
        rw [List.forall_mem_cons] at fit hv
        exact .cons (recordOf_of_toJson hvr hj fit.1 hv.1) (ih hv.2 fit.2 _ trees)
  refine ⟨_, ⟨by simp, js, summary vs, by simp, records, by simp, tallies_summary records⟩, rfl, ?_⟩
  intro few
  rw [Json.parse, Json.render, String.toList_ofList]
  refine Json.parseChars_write Json.readable_indented ?_
  have counts : ∀ s, (Json.int (countStatus s vs : Nat)).Short := fun s =>
    short_nat (countStatus_le s vs) few
  have tally : (summary vs).Short := ⟨short_nat (Nat.le_refl _) few, counts .pass, counts .fail,
    counts .skip, counts .error, True.intro, True.intro⟩
  exact ⟨True.intro, True.intro, ⟨True.intro, True.intro, True.intro⟩, tally, short_recordTrees trees,
    True.intro⟩

end Report

end Assay
