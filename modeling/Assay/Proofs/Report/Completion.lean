import Assay.Proofs.Report.History

/-!
# What stops a report

Telling a verdict can fail only at a file reporter, and only because the verdict has no record.  At the
completion of a run all file reporters hold the same records, so that the first one decides for all
whether they can be rendered; then only the path of a folder is in the way.

* `halt_tellAll`, `halt_completeAll` — what stops a telling and a completion, exactly;
* `exists_hears`, `halt_of_untold` — a run that nobody listens to, with reporters added;
* `Job.halt_eq_completionHalt?`, `Job.stops_of_halt` — what stops a job.
-/

namespace Assay

open Evaluation

/-- What a computation stops by, if it does. -/
def Halt.of? {α : Type} : Except Halt α → Option Halt
  | .ok _ => none
  | .error h => some h

namespace Report

/-! ### Tellings -/

/-- The record of a verdict, or what stops the telling of it. -/
def recorded (v : Verdict) : Except Halt Record := (Record.ofVerdict v).mapError .fault

theorem recorded_eq_ok_iff {v : Verdict} {r : Record} : recorded v = .ok r ↔ Record.ofVerdict v = .ok r :=
  mapError_eq_ok_iff

namespace Desk

/-- **A telling is stopped exactly if there is a file reporter and the verdict has no record.** -/
theorem halt_tellAll (v : Verdict) (rs : List Reporter) :
    (tellAll v rs).2.2 =
      if rs.filterMap Reporter.path? = [] then none else Halt.of? (recorded v) := by
  induction rs with
  | nil => rfl
  | cons r rs ih =>
    cases r with
    | terminal c => exact ih
    | file path spec records =>
      have first : Reporter.tell v (.file path spec records) =
          (Record.ofVerdict v).map fun r => (.file path spec (records ++ [r]), []) := by
        unfold Reporter.tell
        cases Record.ofVerdict v <;> rfl
      have some : (Reporter.file path spec records :: rs).filterMap Reporter.path? ≠ [] := by
        simp [Reporter.path?]
      rw [if_neg some, tellAll, first, recorded]
      cases hv : Record.ofVerdict v with
      | error f => rfl
      | ok r =>
        -- The verdict has a record, so no reporter behind this one is stopped either.
        show (tellAll v rs).2.2 = none
        rw [ih, recorded, hv]
        exact ite_self none

/-! ### Completions -/

/-- What stops the completion of reporters with these paths, where the same text is to be written by
all. -/
def completionHalt? (text : Except Halt String) (paths : List String) : Option Halt :=
  match text with
  | .error h => if paths = [] then none else some h
  | .ok _ => (paths.find? Path.isFolder).map .unwritable

theorem completionHalt?_cons (text path : String) (paths : List String) :
    completionHalt? (.ok text) (path :: paths) =
      if Path.isFolder path then some (.unwritable path) else completionHalt? (.ok text) paths := by
  by_cases folder : Path.isFolder path = true
  · simp [completionHalt?, folder]
  · simp [completionHalt?, folder]

variable {time name version : String} {vs : List Verdict} {records : List Record} {d : Desk}
  {rs : List Reporter}

theorem complete_of_holds {path : String} {spec : Option (String × String)} {held : List Record}
    (hr : (Reporter.file path spec held).Holds name version vs)
    (hrec : List.Forall₂ (fun v r => Record.ofVerdict v = .ok r) vs records) :
    (Reporter.file path spec held).complete time vs = do
      let text ← render time name version vs records
      if Path.isFolder path then .error (.unwritable path)
      else return ([s!"JSON report written to {path}"], [(path, text)]) := by
  obtain ⟨rfl, hheld⟩ := hr
  obtain rfl : held = records := by
    refine List.right_unique_forall₂' ?_ hheld hrec
    intro v a b ha hb
    exact Except.ok.inj (ha.symm.trans hb)
  rfl

/-- **A completion is stopped by what the records cannot be rendered for, or by the path of a folder.**
All file reporters hold the same records. -/
theorem halt_completeAll (hrs : ∀ r ∈ rs, r.Holds name version vs)
    (hrec : List.Forall₂ (fun v r => Record.ofVerdict v = .ok r) vs records) :
    (completeAll time vs d rs).2 =
      completionHalt? (render time name version vs records) (rs.filterMap Reporter.path?) := by
  induction rs generalizing d with
  | nil =>
    cases h : render time name version vs records <;> rfl
  | cons r rs ih =>
    rw [List.forall_mem_cons] at hrs
    cases r with
    | terminal c => exact ih hrs.2
    | file path spec held =>
      rw [completeAll, complete_of_holds hrs.1 hrec]
      cases ht : render time name version vs records with
      | error h => rfl
      | ok text =>
        show _ = completionHalt? (.ok text) (path :: rs.filterMap Reporter.path?)
        rw [completionHalt?_cons]
        by_cases folder : Path.isFolder path = true
        · simp [folder, bind, Except.bind]
        · simp only [folder, bind, Except.bind, pure, Except.pure, Bool.false_eq_true, if_false]
          rw [ih hrs.2, ht]

/-- Without file reporters nothing stops a completion. -/
theorem halt_completeAll_of_terminals (h : rs.filterMap Reporter.path? = []) :
    (completeAll time vs d rs).2 = none := by
  induction rs generalizing d with
  | nil => rfl
  | cons r rs ih =>
    cases r with
    | terminal c => exact ih h
    | file path spec held => cases h

/-- Where the records cannot be rendered, nothing is written. -/
theorem files_completeAll_of_error {h : Halt} (hrs : ∀ r ∈ rs, r.Holds name version vs)
    (hrec : List.Forall₂ (fun v r => Record.ofVerdict v = .ok r) vs records)
    (ht : render time name version vs records = .error h) :
    (completeAll time vs d rs).1.files = d.files := by
  induction rs generalizing d with
  | nil => rfl
  | cons r rs ih =>
    rw [List.forall_mem_cons] at hrs
    cases r with
    | terminal c => exact ih hrs.2
    | file path spec held =>
      rw [completeAll, complete_of_holds hrs.1 hrec, ht]
      rfl

end Desk

end Report

open Report

variable {σ : Type}

/-! ### Runs with reporters -/

namespace Run

variable {ops : Operations σ} {total index : Nat} {hs : List (Held σ)} {s t : σ} {vs : List Verdict}

theorem listen_desk (v : Verdict) (i n : Nat) (d : Desk) :
    (Desk.listen v i n d).2 = if d.paths = [] then none else Halt.of? (recorded v) :=
  Desk.halt_tellAll v d.reporters

theorem paths_listen (v : Verdict) (i n : Nat) (d : Desk) : (Desk.listen v i n d).1.paths = d.paths :=
  Desk.paths_tellAll

/-- **A desk hears verdicts**, if every one has a record or no reporter asks for one. -/
theorem exists_hears {d : Desk} (index : Nat) (hd : d.paths = [] ∨ ∀ v ∈ vs, ∃ r, Record.ofVerdict v = .ok r) :
    ∃ e, Hears Desk.listen total index vs d e := by
  induction vs generalizing index d with
  | nil => exact ⟨d, .nil _ _⟩
  | cons v vs ih =>
    have unstopped : (Desk.listen v (index + 1) total d).2 = none := by
      rw [listen_desk]
      rcases hd with hd | hd
      · exact if_pos hd
      · obtain ⟨r, hr⟩ := hd v List.mem_cons_self
        rw [recorded_eq_ok_iff.2 hr]
        exact ite_self none
    have rest : (Desk.listen v (index + 1) total d).1.paths = [] ∨
        ∀ v ∈ vs, ∃ r, Record.ofVerdict v = .ok r := by
      rw [paths_listen]
      exact hd.imp id fun h w hw => h w (List.mem_cons_of_mem _ hw)
    obtain ⟨e, he⟩ := ih (index + 1) rest
    exact ⟨e, .cons (Prod.ext rfl unstopped) he⟩

/-- **A verdict without a record stops the run there**, if a reporter asks for one. -/
theorem halt_of_untold (h : Passes ops .silent total index hs s vs t) {d : Desk} (hp : d.paths ≠ [])
    (hv : ∃ v ∈ vs, ∀ r, Record.ofVerdict v ≠ .ok r) :
    ∃ v ∈ vs, ∃ f, Record.ofVerdict v = .error f ∧
      (heldFrom ops.onFirst Desk.listen.onSecond total index (hs.map .onFirst) (s, d)).halt =
        some (.fault f) := by
  induction h generalizing d with
  | nil =>
    obtain ⟨v, hv, -⟩ := hv
    cases hv
  | @cons index x hs s t u v vs hr hl _ ih =>
    obtain ⟨rfl, -⟩ := Prod.mk.inj hl
    have evaluated := ofHeld_onFirst ops x s d
    have result : (ofHeld ops.onFirst x.onFirst (s, d)).result = .ok v := by
      rw [evaluated]
      exact hr
    have halt := listen_desk v (index + 1) total d
    rw [if_neg hp] at halt
    have told : Desk.listen.onSecond v (index + 1) total (ofHeld ops.onFirst x.onFirst (s, d)).state =
        (((ofHeld ops x s).state, (Desk.listen v (index + 1) total d).1), Halt.of? (recorded v)) := by
      rw [evaluated, Listener.onSecond, ← halt]
    rw [List.map_cons]
    cases hrec : Record.ofVerdict v with
    | error f =>
      rw [recorded, hrec] at told
      exact ⟨v, List.mem_cons_self, f, hrec, by rw [heldFrom_of_halt result told]⟩
    | ok r =>
      rw [recorded, hrec] at told
      have later : ∃ w ∈ vs, ∀ r, Record.ofVerdict w ≠ .ok r := by
        obtain ⟨w, hw, none⟩ := hv
        rcases List.mem_cons.1 hw with rfl | hw
        · exact absurd hrec (none r)
        · exact ⟨w, hw, none⟩
      have paths : (Desk.listen v (index + 1) total d).1.paths ≠ [] := by
        rw [paths_listen]
        exact hp
      obtain ⟨w, hw, f, hf, stopped⟩ := ih paths later
      refine ⟨w, List.mem_cons_of_mem _ hw, f, hf, ?_⟩
      rw [heldFrom_of_pass result told]
      exact stopped

/-- What stops a run with reporters is an ending that one of its operations comes to, or a fault. -/
theorem halt_cases {k : Halt} {d : Desk}
    (hk : (heldFrom ops.onFirst Desk.listen.onSecond total index (hs.map .onFirst) (s, d)).halt = some k) :
    (∃ e, k = .ended e ∧ ∃ h ∈ hs, ∃ t, ComesTo ops h t (.ended e)) ∨ ∃ f, k = .fault f := by
  obtain ⟨before, after, ⟨t, e⟩, hmap, -, ⟨-, hn, -⟩ | ⟨h', rest, k', rfl, hk', stop⟩⟩ :=
    heldFrom_cases ops.onFirst Desk.listen.onSecond total (hs.map .onFirst) index (s, d)
  · rw [hn] at hk
    cases hk
  · rw [hk'] at hk
    obtain rfl := Option.some.inj hk
    obtain ⟨h, hh, rfl⟩ := List.mem_map.1 (hmap ▸ List.mem_append_right before List.mem_cons_self)
    generalize (heldFrom ops.onFirst Desk.listen.onSecond total index (hs.map .onFirst) (s, d)).state = w
      at stop
    cases stop with
    | evaluation hv =>
      rw [ofHeld_onFirst] at hv
      rcases halt_of_result hv with ⟨e, he, comes⟩ | hf
      · exact Or.inl ⟨e, he, h, hh, t, comes⟩
      · exact Or.inr hf
    | @listener v _ hv hl =>
      rw [ofHeld_onFirst] at hl
      have halt := (congrArg Prod.snd hl).symm.trans (listen_desk v (index + before.length + 1) total e)
      split at halt
      · cases halt
      · unfold recorded at halt
        cases hr : Record.ofVerdict v with
        | error f =>
          rw [hr] at halt
          exact Or.inr ⟨f, Option.some.inj halt⟩
        | ok r =>
          rw [hr] at halt
          cases halt

end Run

/-! ### Jobs -/

namespace Job

variable {j : Job σ} {d : Desk}

/-- A run that is done holds the records of its verdicts. -/
theorem exists_records (h : (j.run d).run.halt = none) (hp : d.paths ≠ []) :
    ∃ records, List.Forall₂ (fun v r => Record.ofVerdict v = .ok r) (j.run d).run.verdicts records := by
  have paths : (j.run d).run.state.2.paths ≠ [] := (run_agrees j d).2 ▸ hp
  obtain ⟨path, hpath⟩ := List.exists_mem_of_ne_nil _ paths
  obtain ⟨r, hr, hrp⟩ := List.mem_filterMap.1 hpath
  have holds := holds_of_halt_eq_none h r hr
  cases r with
  | terminal c => cases hrp
  | file path spec records => exact ⟨records, holds.2⟩

/-- A job that no file reporter follows is stopped by its run only. -/
theorem halt_of_terminals (h : (j.run d).run.halt = none) (hp : d.paths = []) : (j.run d).halt = none := by
  have paths : (j.run d).run.state.2.paths = [] := (run_agrees j d).2.trans hp
  exact (congrArg Prod.snd (complete_of_halt_eq_none h)).trans (Desk.halt_completeAll_of_terminals paths)

/-- What stops a job whose run is done, where the verdicts have these records. -/
theorem halt_eq_completionHalt? {records : List Record} (h : (j.run d).run.halt = none)
    (hrec : List.Forall₂ (fun v r => Record.ofVerdict v = .ok r) (j.run d).run.verdicts records) :
    (j.run d).halt = Desk.completionHalt?
      (render j.time j.spec.name j.spec.version (j.run d).run.verdicts records) d.paths := by
  have completed := congrArg Prod.snd (complete_of_halt_eq_none h)
  refine completed.trans ((Desk.halt_completeAll (holds_of_halt_eq_none h) hrec).trans ?_)
  rw [← (run_agrees j d).2]
  rfl

/-- What stops a job: an operation that one of its cases calls, or a value that cannot be written; and
when the run is done, a report that cannot be rendered, or the path of a folder. -/
inductive Stops (j : Job σ) (d : Desk) : Halt → Prop
  | ended {h : Held σ} {t : σ} {e : Ending} (hh : h ∈ j.held) (hc : ComesTo j.ops h t (.ended e)) :
      Stops j d (.ended e)
  | fault (f : Fault) : Stops j d (.fault f)
  | unrendered {records : List Record} {k : Halt} (h : (j.run d).run.halt = none)
      (hrec : List.Forall₂ (fun v r => Record.ofVerdict v = .ok r) (j.run d).run.verdicts records)
      (hr : render j.time j.spec.name j.spec.version (j.run d).run.verdicts records = .error k) :
      Stops j d k
  | unwritable (path : String) : Stops j d (.unwritable path)

/-- **A job is stopped by one of these.** -/
theorem stops_of_halt {k : Halt} (h : (j.run d).halt = some k) : Stops j d k := by
  cases hr : (j.run d).run.halt with
  | some l =>
    have stopped := hr
    rw [run_eq] at stopped
    rw [(desk_of_halt_eq_some hr).2] at h
    obtain rfl := Option.some.inj h
    rcases Run.halt_cases stopped with ⟨e, rfl, c, hc, t, comes⟩ | ⟨f, rfl⟩
    · exact .ended hc comes
    · exact .fault f
  | none =>
    by_cases paths : d.paths = []
    · rw [halt_of_terminals hr paths] at h
      cases h
    · obtain ⟨records, hrec⟩ := exists_records hr paths
      rw [halt_eq_completionHalt? hr hrec] at h
      unfold Desk.completionHalt? at h
      split at h
      · rename_i l hl
        rw [if_neg paths] at h
        obtain rfl := Option.some.inj h
        exact .unrendered hr hrec hl
      · obtain ⟨path, -, rfl⟩ := Option.map_eq_some_iff.1 h
        exact .unwritable path

end Job

end Assay
