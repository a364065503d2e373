import Assay.Proofs.Report.Completion
import Assay.Proofs.Report.Form
import Assay.Proofs.Spec.Refusal
import Assay.Proofs.Spec.Site
import Assay.Proofs.Value.Reported

/-!
# Reports of finished runs

A run whose evaluations all come to a verdict has still to be reported, and what is turned down at the
end takes the whole report with it.  Which verdicts that are is told here: those on a case whose mode is
not one of the three or whose mark is no truth value, and those with an actual value that holds, even in
its reported form, an integer with too many digits.

* `Reportable` — what a verdict must be like to be reported;
* `render_succeedsIff` — a report can be rendered exactly if all its verdicts are so;
* `Job.Finished` — what becomes of a finished run, and `Job.finished` — it does become of it.
-/

namespace Assay

open Report Grammar

/-! ### Verdicts that can be reported -/

/-- What a verdict must be like to be reported.  Its status, message and kind of error do not matter. -/
structure Report.Reportable (v : Verdict) : Prop where
  compare : IsMode v.case.compare
  xfail : IsTruthValue v.case.test.xfail
  actual : ∀ a, v.actual = some a → ∃ w, a.reported = .ok w ∧ w.Writable

namespace Report

/-- An actual value without long integers is no obstacle. -/
theorem Reportable.of_writable {v : Verdict} (compare : IsMode v.case.compare)
    (xfail : IsTruthValue v.case.test.xfail) (actual : ∀ a, v.actual = some a → a.Writable) :
    Reportable v := by
  refine ⟨compare, xfail, fun a ha => ?_⟩
  rcases a.reported_cases with ⟨w, hw, -, write⟩ | ⟨-, long⟩
  · exact ⟨w, hw, write (actual a ha)⟩
  · exact absurd (actual a ha) long

/-! ### Records -/

theorem reported_succeedsIff (a : Value) : SucceedsIff a.reported (∃ w, a.reported = .ok w) := by
  rcases a.reported_cases with ⟨w, hw, -⟩ | ⟨hw, -⟩
  · exact Or.inl ⟨⟨w, hw⟩, w, hw⟩
  · refine Or.inr ⟨?_, hw⟩
    rw [hw]
    exact nofun

theorem ofVerdict_succeedsIff (v : Verdict) :
    SucceedsIff (Record.ofVerdict v) (∀ a, v.actual = some a → ∃ w, a.reported = .ok w) := by
  unfold Record.ofVerdict
  cases v.actual with
  | none => exact (SucceedsIff.ok _).congr (by simp)
  | some a =>
    refine (((reported_succeedsIff a).map some).last fun w => ⟨_, rfl⟩).congr ?_
    simp

/-- The actual value in the record of a verdict is sayable. -/
theorem sayable_of_ofVerdict {v : Verdict} {r : Record} (h : Record.ofVerdict v = .ok r) {w : Value}
    (hw : r.actual = some w) : w.Sayable := by
  obtain ⟨actual, rel, rfl⟩ := Record.ofVerdict_eq_ok h
  dsimp only at hw
  subst hw
  generalize v.actual = o at rel
  cases rel with
  | @some a _ ha =>
    rcases a.reported_cases with ⟨w', hw', say, -⟩ | ⟨hw', -⟩
    · exact Except.ok.inj (hw'.symm.trans ha) ▸ say
    · cases hw'.symm.trans ha

/-- A text has the tree of that text, wrapped or not. -/
theorem toJson_of_unwrapped {v : Value} {s : String} (h : v.unwrapped = .str s) :
    v.toJson = .ok (.str s) := by
  cases v with
  | str t =>
    cases h
    rfl
  | scalar e item => cases e <;> cases item <;> cases h; rfl
  | _ => cases h

theorem exists_toJson_of_isMode {v : Value} (h : IsMode v) : ∃ j, v.toJson = .ok j := by
  rcases h with h | h | h <;> exact ⟨_, toJson_of_unwrapped h⟩

/-- A record that fits has a tree exactly if its actual value can be written. -/
theorem Record.toJson_succeedsIff {r : Record} (compare : IsMode r.compare) (xfail : IsTruthValue r.xfail)
    (actual : ∀ w, r.actual = some w → w.Sayable) :
    SucceedsIff r.toJson (∀ w, r.actual = some w → w.Writable) := by
  obtain ⟨jc, hc⟩ := exists_toJson_of_isMode compare
  obtain ⟨b, hb⟩ := xfail
  have hx : r.xfail.toJson = .ok (.bool b) := by
    rw [hb]
    rfl
  unfold Record.toJson
  rw [hc, hx]
  cases hr : r.actual with
  | none => exact (SucceedsIff.ok _).congr (by simp)
  | some w =>
    refine (((actual w hr).toJson_succeedsIff.map some).last fun j => ⟨_, rfl⟩).congr ?_
    simp

theorem recordTrees_succeedsIff {rs : List Record} {p : Record → Prop}
    (h : ∀ r ∈ rs, SucceedsIff r.toJson (p r)) : SucceedsIff (recordTrees rs) (∀ r ∈ rs, p r) := by
  induction rs with
  | nil => exact (SucceedsIff.ok _).congr (by simp)
  | cons r rs ih =>
    rw [List.forall_mem_cons] at h
    rw [recordTrees]
    refine (h.1.bind fun j => (ih h.2).last fun js => ⟨_, rfl⟩).congr ?_
    rw [List.forall_mem_cons]

/-! ### Rendering -/

theorem forall₂_forall_iff {α β : Type} {R : α → β → Prop} {xs : List α} {ys : List β} {p : α → Prop}
    {q : β → Prop} (h : List.Forall₂ R xs ys) (hpq : ∀ x y, R x y → (p x ↔ q y)) :
    (∀ x ∈ xs, p x) ↔ ∀ y ∈ ys, q y := by
  induction h with
  | nil => simp
  | cons hxy _ ih => rw [List.forall_mem_cons, List.forall_mem_cons, hpq _ _ hxy, ih]

variable {vs : List Verdict} {records : List Record}

theorem fits_iff_of_ofVerdict {v : Verdict} {r : Record} (h : Record.ofVerdict v = .ok r) :
    (IsMode v.case.compare ∧ IsTruthValue v.case.test.xfail) ↔ r.complaint? = none := by
  obtain ⟨actual, -, rfl⟩ := Record.ofVerdict_eq_ok h
  rw [fits_iff_isRecordForm, isRecordForm_toValue_iff]

/-- Where the record of a verdict fits, the verdict can be reported exactly if the actual value of the
record can be written. -/
theorem reportable_iff_of_ofVerdict {v : Verdict} {r : Record} (h : Record.ofVerdict v = .ok r)
    (fit : IsMode v.case.compare ∧ IsTruthValue v.case.test.xfail) :
    Reportable v ↔ ∀ w, r.actual = some w → w.Writable := by
  have iff : Reportable v ↔ ∀ a, v.actual = some a → ∃ w, a.reported = .ok w ∧ w.Writable :=
    ⟨Reportable.actual, fun h => ⟨fit.1, fit.2, h⟩⟩
  obtain ⟨actual, rel, rfl⟩ := Record.ofVerdict_eq_ok h
  rw [iff]
  generalize v.actual = o at rel
  cases rel with
  | none => simp
  | @some a w ha => simp [ha]

/-- What keeps a report from being rendered, where not all its verdicts can be reported. -/
inductive Unrendered (vs : List Verdict) : Halt → Prop
  | long : Unrendered vs (.fault .longInteger)
  | unfit {v : Verdict} (hv : v ∈ vs) (h : ¬ (IsMode v.case.compare ∧ IsTruthValue v.case.test.xfail))
      (message : String) : Unrendered vs (.unfit message)

/-- **A report can be rendered exactly if all its verdicts can be reported.** -/
theorem render_cases (time name version : String)
    (hrec : List.Forall₂ (fun v r => Record.ofVerdict v = .ok r) vs records) :
    ((∀ v ∈ vs, Reportable v) ∧ ∃ text, render time name version vs records = .ok text) ∨
      (¬ ∀ v ∈ vs, Reportable v) ∧
        ∃ h, render time name version vs records = .error h ∧ Unrendered vs h := by
  have fit := forall₂_forall_iff hrec fun v r => fits_iff_of_ofVerdict
  unfold render
  cases hc : complaint? records with
  | some c =>
    have unfit : ¬ ∀ v ∈ vs, IsMode v.case.compare ∧ IsTruthValue v.case.test.xfail := by
      rw [fit, ← complaint?_eq_none_iff, hc]
      exact nofun
    refine Or.inr ⟨fun all => unfit fun v hv => ⟨(all v hv).compare, (all v hv).xfail⟩, ?_⟩
    dsimp only
    cases hm : c.message with
    | ok m =>
      obtain ⟨v, hv, bad⟩ := not_forall₂.1 unfit
      exact ⟨_, rfl, .unfit hv bad m⟩
    | error f =>
      obtain rfl := ((Complaint.message_succeedsIff c).eq_error_iff.1 hm).2
      exact ⟨_, rfl, .long⟩
  | none =>
    have fits := fit.2 (complaint?_eq_none_iff.1 hc)
    have trees : SucceedsIff (recordTrees records)
        (∀ r ∈ records, ∀ w, r.actual = some w → w.Writable) := by
      refine recordTrees_succeedsIff fun r hr => ?_
      obtain ⟨v, hv, record⟩ := exists_mem_right hrec.flip hr
      have form := (fits_iff_isRecordForm r).1 (complaint?_eq_none_iff.1 hc r hr)
      obtain ⟨compare, xfail⟩ := (isRecordForm_toValue_iff r).1 form
      exact Record.toJson_succeedsIff compare xfail fun w => sayable_of_ofVerdict record
    have reportable : (∀ v ∈ vs, Reportable v) ↔ ∀ r ∈ records, ∀ w, r.actual = some w → w.Writable := by
      refine forall₂_forall_iff (forall₂_imp_of_mem hrec fun v r hv h => And.intro hv h) ?_
      exact fun v r h => reportable_iff_of_ofVerdict h.2 (fits v h.1)
    rcases trees with ⟨all, js, hjs⟩ | ⟨none, hjs⟩
    · exact Or.inl ⟨reportable.2 all, by rw [hjs]; exact ⟨_, rfl⟩⟩
    · exact Or.inr ⟨mt reportable.1 none, by rw [hjs]; exact ⟨_, rfl, .long⟩⟩

end Report

/-! ### Jobs -/

namespace Job

variable {σ : Type}

/-- What becomes of a job at a desk, where all evaluations come to these verdicts. -/
structure Finished (j : Job σ) (d : Desk) (vs : List Verdict) : Prop where
  /-- The job is done exactly if every verdict can be reported. -/
  done_iff : (j.run d).halt = none ↔ ∀ v ∈ vs, Reportable v
  /-- Then it has these verdicts, and at every path there is a report of them. -/
  report : (∀ v ∈ vs, Reportable v) → (j.run d).run.verdicts = vs ∧ ∀ path ∈ d.paths,
    ∃ text, Desk.textAt? path (j.run d).desk.files = some text ∧
      IsReport j.spec.name j.spec.version vs text
  /-- Otherwise nothing is written at all, and the job is stopped: a long integer cannot be written, or
  a case has no known mode or no truth value as mark. -/
  lost : (¬ ∀ v ∈ vs, Reportable v) →
    (j.run d).desk.files = d.files ∧ ∃ h, (j.run d).halt = some h ∧ Unrendered vs h
  /-- With a known mode and a truth value it is enough that no long integer stands in the actual value,
  keys included. -/
  enough : ∀ v ∈ vs, IsMode v.case.compare → IsTruthValue v.case.test.xfail →
    (∀ a, v.actual = some a → a.Writable) → Reportable v

section

variable {j : Job σ} {d : Desk} {vs : List Verdict} {t : σ}

/-- A job whose verdicts have records is run to its end. -/
theorem run_of_recorded (h : Run.Passes j.ops .silent j.held.length 0 j.held j.state vs t)
    (hv : ∀ v ∈ vs, ∃ r, Record.ofVerdict v = .ok r) :
    (j.run d).run.halt = none ∧ (j.run d).run.verdicts = vs := by
  obtain ⟨e, heard⟩ : ∃ e, Run.Hears Desk.listen j.held.length 0 vs
      (d.start j.spec.name j.spec.version j.held.length) e := Run.exists_hears 0 (Or.inr hv)
  obtain ⟨halt, verdicts, -⟩ := Run.heldFrom_of_passes (h.together heard)
  rw [run_eq]
  exact ⟨halt, verdicts⟩

/-- One whose verdicts have not is stopped in its run, with nothing written. -/
theorem run_of_unrecorded (h : Run.Passes j.ops .silent j.held.length 0 j.held j.state vs t)
    (hp : d.paths ≠ []) (hv : ¬ ∀ v ∈ vs, ∃ r, Record.ofVerdict v = .ok r) :
    (j.run d).desk.files = d.files ∧ (j.run d).halt = some (.fault .longInteger) := by
  have unrecorded : ∃ v ∈ vs, ∀ r, Record.ofVerdict v ≠ .ok r := by
    simpa only [not_forall, not_exists, exists_prop] using hv
  have paths : (d.start j.spec.name j.spec.version j.held.length).paths ≠ [] := by
    rwa [Desk.paths_start]
  obtain ⟨v, -, f, hf, stopped⟩ := Run.halt_of_untold h paths unrecorded
  obtain rfl := ((ofVerdict_succeedsIff v).eq_error_iff.1 hf).2
  have halt : (j.run d).run.halt = some (.fault .longInteger) := by
    rw [run_eq]
    exact stopped
  obtain ⟨desk, whole⟩ := desk_of_halt_eq_some halt
  exact ⟨desk ▸ (run_agrees j d).1, whole⟩

/-- At a path where something has been written there is one of the texts written there. -/
theorem exists_textAt?_of_mem {path text : String} {files : List (String × String)}
    (h : (path, text) ∈ files) : ∃ u, Desk.textAt? path files = some u ∧ (path, u) ∈ files := by
  induction files with
  | nil => cases h
  | cons f files ih =>
    rw [Desk.textAt?_cons]
    by_cases same : f.1 = path
    · rw [if_pos same]
      exact ⟨f.2, rfl, same ▸ List.mem_cons_self⟩
    · rw [if_neg same]
      rcases List.mem_cons.1 h with rfl | h
      · exact absurd rfl same
      · obtain ⟨u, hu, mem⟩ := ih h
        exact ⟨u, hu, List.mem_cons_of_mem _ mem⟩

/-- A job that is done has left a report at every path. -/
theorem exists_report (h : (j.run d).halt = none) {path : String} (hp : path ∈ d.paths) :
    ∃ text, Desk.textAt? path (j.run d).desk.files = some text ∧
      IsReport j.spec.name j.spec.version (j.run d).run.verdicts text := by
  have left := j.reported d
  obtain ⟨text, written⟩ := left.complete h path hp
  obtain ⟨u, hu, mem⟩ := exists_textAt?_of_mem (List.mem_reverse.2 written)
  refine ⟨u, ?_, (left.report _ (List.mem_reverse.1 mem)).2⟩
  rw [left.texts, hu, Option.some_or]

end

/-- **What becomes of a finished run.**  At a desk with file reporters, none of them at the path of a
folder, a run whose evaluations all come to a verdict is reported exactly if every verdict can be, and
otherwise there is no report of any of them. -/
theorem finished (j : Job σ) (d : Desk) (hp : d.paths ≠ [])
    (hw : ∀ path ∈ d.paths, Path.isFolder path = false)
    (h : (Run.ofAll j.ops .silent j.held j.state).halt = none) :
    j.Finished d (Run.ofAll j.ops .silent j.held j.state).verdicts := by
  have passes := Run.passes_of_halt_eq_none h
  rw [← Run.ofAll] at passes
  generalize (Run.ofAll j.ops .silent j.held j.state).verdicts = vs at passes ⊢
  have enough (v : Verdict) (_ : v ∈ vs) := Reportable.of_writable (v := v)
  by_cases recorded : ∀ v ∈ vs, ∃ r, Record.ofVerdict v = .ok r
  · obtain ⟨done, rfl⟩ := run_of_recorded (d := d) passes recorded
    obtain ⟨records, hrec⟩ := exists_records done hp
    have halt := halt_eq_completionHalt? done hrec
    have unhindered : d.paths.find? Path.isFolder = none := by
      simpa [List.find?_eq_none] using hw
    rcases render_cases j.time j.spec.name j.spec.version hrec with
      ⟨all, text, ht⟩ | ⟨bad, k, hk, why⟩
    · have whole : (j.run d).halt = none := by
        rw [halt, ht, Desk.completionHalt?, unhindered]
        rfl
      exact ⟨iff_of_true whole all, fun _ => ⟨rfl, fun path => exists_report whole⟩,
        fun none => absurd all none, enough⟩
    · have stopped : (j.run d).halt = some k := by
        rw [halt, hk, Desk.completionHalt?, if_neg hp]
      have files : (j.run d).desk.files = d.files := by
        have completed := congrArg Prod.fst (complete_of_halt_eq_none done)
        rw [← (run_agrees j d).1]
        exact (congrArg Desk.files completed).trans
          (Desk.files_completeAll_of_error (holds_of_halt_eq_none done) hrec hk)
      exact ⟨iff_of_false (by simp [stopped]) bad, fun all => absurd all bad,
        fun _ => ⟨files, k, stopped, why⟩, enough⟩
  · obtain ⟨files, stopped⟩ := run_of_unrecorded passes hp recorded
    have bad : ¬ ∀ v ∈ vs, Reportable v := by
      intro all
      refine recorded fun v hv => (ofVerdict_succeedsIff v).isOk_iff.2 fun a ha => ?_
      obtain ⟨w, hw, -⟩ := (all v hv).actual a ha
      exact ⟨w, hw⟩
    exact ⟨iff_of_false (by simp [stopped]) bad, fun all => absurd all bad,
      fun _ => ⟨files, _, stopped, .long⟩, enough⟩

/-- A job with one case, which gets its own input back and is compared with it. -/
def echoJob (input compare : Value) : Job Unit :=
  ⟨"", { name := "probe", version := "1", groups := [] },
    [.still ⟨{ id := "a", op := "same", input := input, expected := input }, ["g"], compare, none⟩],
    probes, ()⟩

/-- A desk with one new file reporter. -/
def fileDesk : Desk := ⟨[.file "out.json" none []], [], []⟩

theorem finished_echo :
    let j := echoJob (.list [.int 1, .tuple []]) (.str "deep")
    (Run.ofAll j.ops .silent j.held j.state).halt = none ∧
      j.Finished fileDesk (Run.ofAll j.ops .silent j.held j.state).verdicts ∧
        (j.run fileDesk).halt = none := by
  intro j
  have paths : fileDesk.paths = ["out.json"] := rfl
  have finished : j.Finished fileDesk (Run.ofAll j.ops .silent j.held j.state).verdicts := by
    refine finished j fileDesk (by rw [paths]; simp) ?_ rfl
    rw [paths]
    decide +kernel
  exact ⟨rfl, finished, by decide +kernel⟩

/-- Two runs that come to a verdict and are not reported: one compares by a mode that there is not, which
makes the verdict an error, and the other passes with an integer that is just too long. -/
theorem finished_unreported :
    let odd := echoJob (.int 1) (.str "fuzzy")
    let long := echoJob (.int digitBound) (.str "deep")
    ((Run.ofAll odd.ops .silent odd.held odd.state).halt = none ∧
        (Run.ofAll odd.ops .silent odd.held odd.state).verdicts.map Verdict.status = [.error] ∧
        (odd.run fileDesk).halt =
          some (.unfit "'fuzzy' is not one of ['strict', 'deep', 'approx']") ∧
        (odd.run fileDesk).desk.files = []) ∧
      (Run.ofAll long.ops .silent long.held long.state).halt = none ∧
        (Run.ofAll long.ops .silent long.held long.state).verdicts.map Verdict.status = [.pass] ∧
        (long.run fileDesk).halt = some (.fault .longInteger) ∧
        (long.run fileDesk).desk.files = [] := by
  decide +kernel

end Job

end Assay
