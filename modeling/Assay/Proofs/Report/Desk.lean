import Assay.Proofs.Report.Payload
import Assay.Report.Reporter

/-!
# What reporters hold and write

A start makes a file reporter forget what it has collected.  From there on it holds the records of the
verdicts that it is told, and what it writes at completion reports these.  A desk passes everything on
to its reporters, and a path has the text that was written there last.

* `Reporter.Holds` — what a reporter holds after verdicts, kept by every telling;
* `Holds.report`, `Holds.writes` — what it writes, and that it does write;
* `completeAll_eq` — the files after a completion, with `writes` for what has been written;
* `textAt?_putAll` — the text at a path after writes.
-/

namespace Assay.Report

/-! ### What reporters hold -/

namespace Reporter

/-- The path that a reporter writes to. -/
def path? : Reporter → Option String
  | .terminal _ => none
  | .file path _ _ => some path

/-- A reporter that has been told nothing yet. -/
def IsNew : Reporter → Prop
  | .terminal _ => True
  | .file _ spec records => spec = none ∧ records = []

/-- A file reporter holds the specification of a run and the records of verdicts. -/
def Holds (name version : String) (vs : List Verdict) : Reporter → Prop
  | .terminal _ => True
  | .file _ spec records => spec = some (name, version) ∧
      List.Forall₂ (fun v r => Record.ofVerdict v = .ok r) vs records

/-- A start makes a reporter forget everything before it. -/
theorem holds_started (name version : String) (r : Reporter) :
    (r.started name version).Holds name version [] := by
  cases r with
  | terminal c => exact True.intro
  | file path spec records => exact ⟨rfl, .nil⟩

theorem path?_started (name version : String) (r : Reporter) :
    (r.started name version).path? = r.path? := by
  cases r <;> rfl

section Tell

variable {name version : String} {vs : List Verdict} {v : Verdict} {r r' : Reporter}
  {lines : List String}

theorem path?_of_tell (h : r.tell v = .ok (r', lines)) : r'.path? = r.path? := by
  cases r with
  | terminal c =>
    cases h
    rfl
  | file path spec records =>
    obtain ⟨record, -, ⟨⟩⟩ := bind_eq_ok_iff.1 h
    rfl

/-- A reporter that is told a verdict holds its record as well. -/
theorem Holds.tell (hr : r.Holds name version vs) (h : r.tell v = .ok (r', lines)) :
    r'.Holds name version (vs ++ [v]) := by
  cases r with
  | terminal c =>
    cases h
    exact True.intro
  | file path spec records =>
    obtain ⟨record, hv, ⟨⟩⟩ := bind_eq_ok_iff.1 h
    exact ⟨hr.1, List.rel_append hr.2 (.cons hv .nil)⟩

end Tell

section Complete

variable {time name version : String} {vs : List Verdict} {r : Reporter} {lines : List String}
  {files : List (String × String)}

/-- A file reporter that has been told a start writes one text, which is rendered from its records. -/
theorem complete_started {path : String} {records : List Record}
    (h : (Reporter.file path (some (name, version)) records).complete time vs = .ok (lines, files)) :
    ∃ text, render time name version vs records = .ok text ∧ files = [(path, text)] := by
  obtain ⟨text, ht, h⟩ := bind_eq_ok_iff.1 h
  split at h
  · cases h
  · cases h
    exact ⟨text, ht, rfl⟩

/-- What a reporter writes at completion reports what it holds. -/
theorem Holds.report (hv : ∀ v ∈ vs, v.errorKind ≠ none ↔ v.status = .error)
    (hr : r.Holds name version vs) (h : r.complete time vs = .ok (lines, files)) {w : String × String}
    (hw : w ∈ files) : r.path? = some w.1 ∧ IsReport name version vs w.2 := by
  cases r with
  | terminal c =>
    cases h
    cases hw
  | file path spec records =>
    obtain ⟨rfl, records⟩ := hr
    obtain ⟨text, ht, rfl⟩ := complete_started h
    obtain rfl := List.mem_singleton.1 hw
    exact ⟨rfl, isReport_of_render hv records ht⟩

/-- A file reporter that holds something writes at completion. -/
theorem Holds.writes (hr : r.Holds name version vs) (h : r.complete time vs = .ok (lines, files))
    {path : String} (hp : r.path? = some path) : ∃ text, (path, text) ∈ files := by
  cases r with
  | terminal c => cases hp
  | file p spec records =>
    cases hp
    obtain ⟨rfl, -⟩ := hr
    obtain ⟨text, -, rfl⟩ := complete_started h
    exact ⟨text, List.mem_singleton_self _⟩

/-- Before any start nothing is written. -/
theorem IsNew.writes_nothing (hr : r.IsNew) (h : r.complete time vs = .ok (lines, files)) :
    files = [] := by
  cases r with
  | terminal c =>
    cases h
    rfl
  | file path spec records =>
    obtain ⟨rfl, -⟩ := hr
    cases h
    rfl

end Complete

end Reporter

/-! ### What a desk does -/

namespace Desk

/-- The paths that the reporters at a desk write to. -/
def paths (d : Desk) : List String := d.reporters.filterMap Reporter.path?

/-- The desks have the same files and the same paths. -/
def Agrees (d e : Desk) : Prop := e.files = d.files ∧ e.paths = d.paths

theorem paths_start (name version : String) (total : Nat) (d : Desk) :
    (d.start name version total).paths = d.paths := by
  rw [paths, start, List.filterMap_map]
  exact congrArg (List.filterMap · d.reporters) (funext (Reporter.path?_started name version))

theorem paths_tellAll {v : Verdict} {rs : List Reporter} :
    (tellAll v rs).1.filterMap Reporter.path? = rs.filterMap Reporter.path? := by
  induction rs with
  | nil => rfl
  | cons r rs ih =>
    unfold tellAll
    cases hr : r.tell v with
    | error f => rfl
    | ok told =>
      dsimp only
      rw [List.filterMap_cons, List.filterMap_cons, Reporter.path?_of_tell hr, ih]

/-- Telling a verdict to the reporters at a desk writes no file. -/
theorem listen_agrees {d e : Desk} (v : Verdict) (index total : Nat) (h : Agrees d e) :
    Agrees d (listen v index total e).1 :=
  ⟨h.1, paths_tellAll.trans h.2⟩

/-- If all reporters are told a verdict, each holds its record as well. -/
theorem holds_tellAll {name version : String} {vs : List Verdict} {v : Verdict} {rs : List Reporter}
    (hrs : ∀ r ∈ rs, r.Holds name version vs) (h : (tellAll v rs).2.2 = none) :
    ∀ r ∈ (tellAll v rs).1, r.Holds name version (vs ++ [v]) := by
  induction rs with
  | nil => exact fun r hr => by cases hr
  | cons r rs ih =>
    rw [List.forall_mem_cons] at hrs
    unfold tellAll at h ⊢
    cases hr : r.tell v with
    | error f =>
      rw [hr] at h
      cases h
    | ok told =>
      rw [hr] at h
      exact List.forall_mem_cons.2 ⟨hrs.1.tell hr, ih hrs.2 h⟩

/-- Puts files at their paths, one after the other. -/
def putAll (writes files : List (String × String)) : List (String × String) :=
  writes.foldl (fun fs w => putFile w.1 w.2 fs) files

/-- The files that reporters write at the completion of a run, up to the first that fails. -/
def writes (time : String) (vs : List Verdict) : List Reporter → List (String × String)
  | [] => []
  | r :: rs =>
    match r.complete time vs with
    | .error _ => []
    | .ok (_, files) => files ++ writes time vs rs

/-- Completion writes these files and changes no reporter. -/
theorem completeAll_eq (time : String) (vs : List Verdict) (d : Desk) (rs : List Reporter) :
    (completeAll time vs d rs).1.files = putAll (writes time vs rs) d.files ∧
      (completeAll time vs d rs).1.reporters = d.reporters := by
  induction rs generalizing d with
  | nil => exact ⟨rfl, rfl⟩
  | cons r rs ih =>
    unfold completeAll writes
    cases hr : r.complete time vs with
    | error h => exact ⟨rfl, rfl⟩
    | ok done =>
      obtain ⟨files, reporters⟩ := ih { d with
        printed := d.printed ++ done.1
        files := putAll done.2 d.files }
      refine ⟨files.trans ?_, reporters⟩
      rw [putAll, putAll, putAll, List.foldl_append]

theorem exists_of_mem_writes {time : String} {vs : List Verdict} {rs : List Reporter}
    {w : String × String} (h : w ∈ writes time vs rs) :
    ∃ r ∈ rs, ∃ done, r.complete time vs = .ok done ∧ w ∈ done.2 := by
  induction rs with
  | nil => cases h
  | cons r rs ih =>
    unfold writes at h
    cases hr : r.complete time vs with
    | error f =>
      rw [hr] at h
      cases h
    | ok done =>
      rw [hr] at h
      rcases List.mem_append.1 h with h | h
      · exact ⟨r, List.mem_cons_self, done, hr, h⟩
      · obtain ⟨r', hr', found⟩ := ih h
        exact ⟨r', List.mem_cons_of_mem r hr', found⟩

/-- If nothing stops the completion, every reporter has written its files. -/
theorem forall_mem_writes {time : String} {vs : List Verdict} {d : Desk} {rs : List Reporter}
    (h : (completeAll time vs d rs).2 = none) :
    ∀ r ∈ rs, ∃ done, r.complete time vs = .ok done ∧ ∀ w ∈ done.2, w ∈ writes time vs rs := by
  induction rs generalizing d with
  | nil => exact fun r hr => by cases hr
  | cons r rs ih =>
    unfold completeAll at h
    unfold writes
    cases hr : r.complete time vs with
    | error f =>
      rw [hr] at h
      cases h
    | ok done =>
      rw [hr] at h
      refine List.forall_mem_cons.2 ⟨⟨done, hr, fun w hw => List.mem_append_left _ hw⟩, ?_⟩
      intro r' hr'
      obtain ⟨done', hdone, hw⟩ := ih h r' hr'
      exact ⟨done', hdone, fun w h => List.mem_append_right _ (hw w h)⟩

/-- Without a start there is nothing to write. -/
theorem writes_of_isNew {time : String} {vs : List Verdict} {rs : List Reporter}
    (h : ∀ r ∈ rs, r.IsNew) : writes time vs rs = [] := by
  rw [List.eq_nil_iff_forall_not_mem]
  intro w hw
  obtain ⟨r, hr, done, hdone, hmem⟩ := exists_of_mem_writes hw
  rw [(h r hr).writes_nothing hdone] at hmem
  cases hmem

/-! ### The text at a path -/

/-- The text that files have at a path. -/
def textAt? (path : String) (files : List (String × String)) : Option String :=
  (files.find? fun f => f.1 == path).map Prod.snd

theorem textAt?_cons (p : String) (f : String × String) (files : List (String × String)) :
    textAt? p (f :: files) = if f.1 = p then some f.2 else textAt? p files := by
  by_cases h : f.1 = p <;> simp [textAt?, h]

theorem textAt?_append (p : String) (files more : List (String × String)) :
    textAt? p (files ++ more) = (textAt? p files).or (textAt? p more) := by
  rw [textAt?, List.find?_append, Option.map_or]
  rfl

theorem textAt?_putFile (p path text : String) (files : List (String × String)) :
    textAt? p (putFile path text files) = if path = p then some text else textAt? p files := by
  have others : textAt? p (files.filter fun f => f.1 ≠ path) =
      if path = p then none else textAt? p files := by
    induction files with
    | nil => exact (ite_self none).symm
    | cons f files ih =>
      by_cases hf : f.1 = path
      · rw [List.filter_cons_of_neg (by simpa using hf), ih, textAt?_cons, hf]
        split <;> rfl
      · rw [List.filter_cons_of_pos (by simpa using hf), textAt?_cons, ih, textAt?_cons]
        by_cases hp : path = p
        · subst hp
          simp [hf]
        · simp [hp]
  rw [putFile, textAt?_append, others, textAt?_cons]
  split
  · rfl
  · exact Option.or_none

/-- A path has the last text that was put there, or else the one that it had. -/
theorem textAt?_putAll (p : String) (writes files : List (String × String)) :
    textAt? p (putAll writes files) = (textAt? p writes.reverse).or (textAt? p files) := by
  induction writes generalizing files with
  | nil => rfl
  | cons w writes ih =>
    have step : textAt? p (putAll (w :: writes) files) =
        (textAt? p writes.reverse).or (textAt? p (putFile w.1 w.2 files)) := ih _
    rw [step, textAt?_putFile, List.reverse_cons, textAt?_append, textAt?_cons, Option.or_assoc]
    split <;> rfl

end Desk

end Assay.Report
