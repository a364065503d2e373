import Assay.Proofs.Report.Desk
import Assay.Proofs.Run.Course
import Assay.Session

/-!
# Reports after any history

Reporters are used for one job after the other, and some of these jobs are stopped.  What a job leaves
in the files does not depend on that: a start comes first, and a run that is done has told every
reporter its verdicts, in order.

* `Hears` — verdicts that a listener is told, and `Passes.apart` — it is told them as if nothing ran;
* `heldFrom_keeps` — what a listener keeps is kept by a run, also by one that is stopped;
* `Hears.holds` — reporters hold the records of the verdicts that they are told;
* `Reported` — what a job has left in the files;
* `Job.reported_after` — every job leaves its files so, whatever the reporters have been used for.
-/

namespace Assay

open Evaluation Report

variable {σ ρ : Type}

/-! ### A listener with a state of its own -/

namespace Run

/-- A listener is told verdicts one after the other, and none of them stops it. -/
inductive Hears (listen : Listener ρ) (total : Nat) : Nat → List Verdict → ρ → ρ → Prop
  | nil (index : Nat) (r : ρ) : Hears listen total index [] r r
  | cons {index : Nat} {v : Verdict} {vs : List Verdict} {r r' r'' : ρ}
      (hl : listen v (index + 1) total r = (r', none)) (rest : Hears listen total (index + 1) vs r' r'') :
      Hears listen total index (v :: vs) r r''

/-- **Operations and a listener that work on the two parts of a pair do not meet**: cases are passed as if
nobody listened, and the verdicts are heard as if nothing ran. -/
theorem Passes.apart {ops : Operations σ} {listen : Listener ρ} {total index : Nat} {hs : List (Held σ)}
    {vs : List Verdict} {a b : σ × ρ}
    (h : Passes ops.onFirst listen.onSecond total index (hs.map .onFirst) a vs b) :
    Passes ops .silent total index hs a.1 vs b.1 ∧ Hears listen total index vs a.2 b.2 := by
  induction hs generalizing index a vs with
  | nil =>
    cases h
    exact ⟨.nil _ _, .nil _ _⟩
  | cons x hs ih =>
    obtain ⟨s, r⟩ := a
    cases h with
    | cons hv hl rest =>
      rw [ofHeld_onFirst] at hv hl
      obtain ⟨rfl, told⟩ := Prod.mk.inj hl
      obtain ⟨passed, heard⟩ := ih rest
      exact ⟨.cons hv rfl passed, .cons (Prod.ext rfl told) heard⟩

theorem Passes.together {ops : Operations σ} {listen : Listener ρ} {total index : Nat} {hs : List (Held σ)}
    {vs : List Verdict} {s t : σ} {r r' : ρ} (h : Passes ops .silent total index hs s vs t)
    (heard : Hears listen total index vs r r') :
    Passes ops.onFirst listen.onSecond total index (hs.map .onFirst) (s, r) vs (t, r') := by
  induction h generalizing r with
  | nil =>
    cases heard
    exact .nil _ _
  | @cons index x hs s t u v vs hv hl _ ih =>
    cases heard with
    | @cons _ _ _ _ r' _ told rest =>
      obtain ⟨rfl, -⟩ := Prod.mk.inj hl
      have evaluated := ofHeld_onFirst ops x s r
      refine .cons (t := ((ofHeld ops x s).state, r')) ?_ ?_ (ih rest)
      · rw [evaluated]
        exact hv
      · rw [evaluated, Listener.onSecond, told]

/-- What a listener keeps is kept by a run whose operations leave its part of the state alone. -/
theorem heldFrom_keeps {ops : Operations σ} {listen : Listener ρ} {P : ρ → Prop}
    (hP : ∀ v index total r, P r → P (listen v index total r).1) (total : Nat) (hs : List (Held σ))
    (index : Nat) (s : σ) {r : ρ} (hr : P r) :
    P (heldFrom ops.onFirst listen.onSecond total index (hs.map .onFirst) (s, r)).state.2 := by
  induction hs generalizing index s r with
  | nil => exact hr
  | cons x hs ih =>
    have evaluated := ofHeld_onFirst ops x s r
    rw [List.map_cons]
    cases hv : (ofHeld ops x s).result with
    | error h =>
      rw [heldFrom_of_error (by rw [evaluated]; exact hv), evaluated]
      exact hr
    | ok v =>
      have told := hP v (index + 1) total r hr
      rcases hl : listen v (index + 1) total r with ⟨after, h | h⟩
      · rw [heldFrom_of_pass (v := v) (t := ((ofHeld ops x s).state, after))
          (by rw [evaluated]; exact hv) (by rw [evaluated, Listener.onSecond, hl])]
        rw [hl] at told
        exact ih (index + 1) _ told
      · rw [heldFrom_of_halt (v := v) (t := ((ofHeld ops x s).state, after))
          (by rw [evaluated]; exact hv) (by rw [evaluated, Listener.onSecond, hl])]
        rw [hl] at told
        exact told

/-! ### A run with its reports -/

/-- Among the verdicts of a run the errors, and only they, have a kind. -/
theorem Passes.errorKind {ops : Operations σ} {listen : Listener σ} {total index : Nat}
    {hs : List (Held σ)} {vs : List Verdict} {s t : σ} (h : Passes ops listen total index hs s vs t) :
    ∀ v ∈ vs, v.errorKind ≠ none ↔ v.status = .error := by
  induction h with
  | nil => exact fun v hv => by cases hv
  | cons hv _ _ ih => exact List.forall_mem_cons.2 ⟨(ruling_of_result hv).errorKind, ih⟩

/-- Where verdicts are heard, every reporter at the desk holds their records after those before. -/
theorem Hears.holds {total index : Nat} {vs : List Verdict} {d e : Desk}
    (h : Hears Desk.listen total index vs d e) {name version : String} {before : List Verdict}
    (hd : ∀ r ∈ d.reporters, r.Holds name version before) :
    ∀ r ∈ e.reporters, r.Holds name version (before ++ vs) := by
  induction h generalizing before with
  | nil =>
    rw [List.append_nil]
    exact hd
  | @cons index v vs d d' e hl _ ih =>
    obtain ⟨rfl, hn⟩ := Prod.mk.inj hl
    have told := ih (Desk.holds_tellAll hd hn)
    rwa [List.append_assoc, List.singleton_append] at told

end Run

/-- Held cases of a specification that are to be run and reported: with a table of operations, from a
state, at a time. -/
structure Job (σ : Type) where
  time : String
  spec : Spec
  held : List (Held σ)
  ops : Operations σ
  state : σ

namespace Job

/-- Runs a job and reports it at a desk. -/
def run (j : Job σ) (d : Desk) : Session.Execution σ :=
  Session.executeHeld j.time j.spec j.held j.ops d j.state

/-- The files that a job writes at a desk, in order: none if its run is stopped. -/
def writes (j : Job σ) (d : Desk) : List (String × String) :=
  match (j.run d).run.halt with
  | some _ => []
  | none => Desk.writes j.time (j.run d).run.verdicts (j.run d).run.state.2.reporters

end Job

/-- What a job has left in the files, where the reporters at the desk write to these paths. -/
structure Reported (paths : List String) (j : Job σ) (d : Desk) : Prop where
  /-- A path has the text that the job has written there last, or else the one that it had. -/
  texts : ∀ path, Desk.textAt? path (j.run d).desk.files =
    (Desk.textAt? path (j.writes d).reverse).or (Desk.textAt? path d.files)
  /-- What is written stands at the path of a reporter, and reports the verdicts of this run. -/
  report : ∀ w ∈ j.writes d, w.1 ∈ paths ∧
    IsReport j.spec.name j.spec.version (j.run d).run.verdicts w.2
  /-- Only a run that is done with all its cases is reported. -/
  whole : j.writes d ≠ [] →
    (j.run d).run.halt = none ∧
      List.Forall₂ (fun h v => h.Reads v.case) j.held (j.run d).run.verdicts
  /-- If nothing has stopped the job, it has written to every path. -/
  complete : (j.run d).halt = none → ∀ path ∈ paths, ∃ text, (path, text) ∈ j.writes d

namespace Job

section Course

variable (j : Job σ) (d : Desk)

theorem run_eq : (j.run d).run =
    Run.heldFrom j.ops.onFirst Desk.listen.onSecond j.held.length 0 (j.held.map .onFirst)
      (j.state, d.start j.spec.name j.spec.version j.held.length) := by
  unfold run Session.executeHeld Session.Execution.ofRun Run.ofAll
  rw [List.length_map]
  split <;> rfl

/-- The run of a job writes nothing, and every reporter keeps its path. -/
theorem run_agrees : d.Agrees (j.run d).run.state.2 := by
  rw [run_eq]
  refine Run.heldFrom_keeps (fun v index total e => Desk.listen_agrees v index total) _ _
    _ _ ⟨rfl, Desk.paths_start _ _ _ d⟩

variable {j d}

/-- A run that is done has passed all cases, and the desk has been told their verdicts. -/
theorem passes_of_halt_eq_none (h : (j.run d).run.halt = none) :
    Run.Passes j.ops .silent j.held.length 0 j.held j.state (j.run d).run.verdicts (j.run d).run.state.1 ∧
      Run.Hears Desk.listen j.held.length 0 (j.run d).run.verdicts
        (d.start j.spec.name j.spec.version j.held.length) (j.run d).run.state.2 := by
  rw [run_eq] at h ⊢
  exact (Run.passes_of_halt_eq_none h).apart

/-- A run that is done leaves every file reporter with the records of its verdicts. -/
theorem holds_of_halt_eq_none (h : (j.run d).run.halt = none) :
    ∀ r ∈ (j.run d).run.state.2.reporters,
      r.Holds j.spec.name j.spec.version (j.run d).run.verdicts := by
  have started : ∀ r ∈ (d.start j.spec.name j.spec.version j.held.length).reporters,
      r.Holds j.spec.name j.spec.version [] := by
    intro r hr
    obtain ⟨r', -, rfl⟩ := List.mem_map.1 hr
    exact Reporter.holds_started _ _ r'
  exact (passes_of_halt_eq_none h).2.holds started

theorem complete_of_halt_eq_none (h : (j.run d).run.halt = none) :
    ((j.run d).desk, (j.run d).halt) =
      (j.run d).run.state.2.complete j.time (j.run d).run.verdicts := by
  have done : (j.run d) = Session.Execution.ofRun j.time (j.run d).run := by
    rw [run_eq, run, Session.executeHeld, Run.ofAll, List.length_map]
  rw [done, Session.Execution.ofRun, h]

theorem desk_of_halt_eq_some {k : Halt} (h : (j.run d).run.halt = some k) :
    (j.run d).desk = (j.run d).run.state.2 ∧ (j.run d).halt = some k := by
  have done : (j.run d) = Session.Execution.ofRun j.time (j.run d).run := by
    rw [run_eq, run, Session.executeHeld, Run.ofAll, List.length_map]
  rw [done, Session.Execution.ofRun, h]
  exact ⟨rfl, rfl⟩

end Course

/-- A stopped run writes nothing, and one that is done writes the files of its completion. -/
theorem files_eq (j : Job σ) (d : Desk) :
    (j.run d).desk.files = Desk.putAll (j.writes d) d.files ∧
      (j.run d).desk.reporters = (j.run d).run.state.2.reporters := by
  obtain ⟨files, -⟩ := run_agrees j d
  unfold writes
  cases h : (j.run d).run.halt with
  | some k =>
    rw [(desk_of_halt_eq_some h).1]
    exact ⟨files, rfl⟩
  | none =>
    have completed := congrArg Prod.fst (complete_of_halt_eq_none h)
    obtain ⟨written, reporters⟩ := Desk.completeAll_eq j.time (j.run d).run.verdicts
      (j.run d).run.state.2 (j.run d).run.state.2.reporters
    rw [files] at written
    exact ⟨(congrArg Desk.files completed).trans written,
      (congrArg Desk.reporters completed).trans reporters⟩

/-- The reporters keep their paths through a job. -/
theorem paths_run (j : Job σ) (d : Desk) : (j.run d).desk.paths = d.paths := by
  rw [Desk.paths, (files_eq j d).2]
  exact (run_agrees j d).2

/-- **A job leaves its files so, whatever the reporters have been used for before.** -/
theorem reported (j : Job σ) (d : Desk) : Reported d.paths j d := by
  have texts (path : String) : Desk.textAt? path (j.run d).desk.files =
      (Desk.textAt? path (j.writes d).reverse).or (Desk.textAt? path d.files) := by
    rw [(files_eq j d).1, Desk.textAt?_putAll]
  cases h : (j.run d).run.halt with
  | some k =>
    have nothing : j.writes d = [] := by
      rw [writes, h]
    refine ⟨texts, ?_, fun hw => absurd nothing hw, ?_⟩
    · rw [nothing]
      exact fun w hw => by cases hw
    · rw [(desk_of_halt_eq_some h).2]
      exact fun hk => by cases hk
  | none =>
    have passed := (passes_of_halt_eq_none h).1
    have holds := holds_of_halt_eq_none h
    have written : j.writes d =
        Desk.writes j.time (j.run d).run.verdicts (j.run d).run.state.2.reporters := by
      rw [writes, h]
    have mem_paths (path : String) :
        path ∈ d.paths ↔ ∃ r ∈ (j.run d).run.state.2.reporters, r.path? = some path := by
      rw [← (run_agrees j d).2, Desk.paths, List.mem_filterMap]
    refine ⟨texts, ?_, fun _ => ⟨h, passed.reads⟩, ?_⟩
    · intro w hw
      rw [written] at hw
      obtain ⟨r, hr, done, hdone, hmem⟩ := Desk.exists_of_mem_writes hw
      obtain ⟨path, report⟩ := (holds r hr).report passed.errorKind hdone hmem
      exact ⟨(mem_paths w.1).2 ⟨r, hr, path⟩, report⟩
    · intro hn path hpath
      obtain ⟨r, hr, hp⟩ := (mem_paths path).1 hpath
      have completed := (congrArg Prod.snd (complete_of_halt_eq_none h)).symm.trans hn
      obtain ⟨done, hdone, hmem⟩ := Desk.forall_mem_writes completed r hr
      obtain ⟨text, ht⟩ := (holds r hr).writes hdone hp
      rw [written]
      exact ⟨text, hmem _ ht⟩

end Job

/-! ### Histories -/

namespace Report.Desk

/-- A desk with reporters that have been told completions, each with its time and verdicts. -/
def told (completions : List (String × List Verdict)) (rs : List Reporter) : Desk :=
  completions.foldl (fun d c => (d.complete c.1 c.2).1) ⟨rs, [], []⟩

/-- A desk after jobs, one after the other. -/
def after (jobs : List (Job σ)) (d : Desk) : Desk := jobs.foldl (fun d j => (j.run d).desk) d

/-- Completions before any start write nothing. -/
theorem told_eq {rs : List Reporter} (h : ∀ r ∈ rs, r.IsNew)
    (completions : List (String × List Verdict)) :
    (told completions rs).files = [] ∧ (told completions rs).reporters = rs := by
  induction completions using List.reverseRecOn with
  | nil => exact ⟨rfl, rfl⟩
  | append_singleton completions c ih =>
    obtain ⟨files, reporters⟩ := completeAll_eq c.1 c.2 (told completions rs) (told completions rs).reporters
    rw [told, List.foldl_append]
    refine ⟨files.trans ?_, reporters.trans ih.2⟩
    rw [ih.2, writes_of_isNew h, ih.1]
    rfl

theorem paths_after (jobs : List (Job σ)) (d : Desk) : (after jobs d).paths = d.paths := by
  induction jobs generalizing d with
  | nil => rfl
  | cons j jobs ih => exact (ih _).trans (j.paths_run d)

end Report.Desk

/-- **Whatever reporters have been used for, a job leaves its files so.**  They are new at first; then
they are told completions without a start, which write nothing; then jobs are run, of which any may be
stopped; and then the job is. -/
theorem Job.reported_after {rs : List Reporter} (h : ∀ r ∈ rs, r.IsNew)
    (completions : List (String × List Verdict)) (jobs : List (Job σ)) (j : Job σ) :
    (Desk.told completions rs).files = [] ∧
      Reported (rs.filterMap Reporter.path?) j (Desk.after jobs (Desk.told completions rs)) := by
  obtain ⟨files, reporters⟩ := Desk.told_eq h completions
  refine ⟨files, ?_⟩
  have paths : (Desk.after jobs (Desk.told completions rs)).paths = rs.filterMap Reporter.path? :=
    (Desk.paths_after jobs _).trans (congrArg (List.filterMap Reporter.path?) reporters)
  rw [← paths]
  exact j.reported (Desk.after jobs (Desk.told completions rs))

/-- A table in which one operation gives its input back and another ends the program. -/
def probes : Operations Unit := fun name =>
  if name = "same" then some fun v s => (.value v, s)
  else if name = "exit" then some fun _ s => (⟨false, .ended (.exit "2")⟩, s)
  else none

/-- A job that calls operations of this table on null, in order. -/
def probeJob (calls : List String) : Job Unit :=
  ⟨"", { name := "probe", version := "1", groups := [] },
    calls.map fun op =>
      .still ⟨{ id := op, op := op, input := .null, expected := .null }, [], .str "deep", none⟩,
    probes, ()⟩

/-- A file reporter and one that prints are told a completion, then a job that is stopped at its
second case, and then one that is done with two. -/
theorem Job.reported_after_stopped :
    let rs : List Reporter := [.terminal false, .file "report.json" none []]
    let new := Desk.told [("", [])] rs
    let stopped := probeJob ["same", "exit", "same"]
    let d := Desk.after [stopped] new
    let j := probeJob ["same", "none"]
    (∀ r ∈ rs, r.IsNew) ∧ (stopped.run new).run.halt = some (.ended (.exit "2")) ∧
      (j.run d).run.halt = none ∧ new.files = [] ∧ Reported ["report.json"] j d := by
  intro rs new stopped d j
  have isNew : ∀ r ∈ rs, r.IsNew := by
    simp [rs, Reporter.IsNew]
  exact ⟨isNew, rfl, rfl, Job.reported_after isNew [("", [])] [stopped] j⟩

end Assay
