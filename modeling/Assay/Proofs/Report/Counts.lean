import Assay.Proofs.Report.Selection

/-!
# What a session counts

The exit code of a session, the lines on a terminal and the file of a report are counted out of the
verdicts separately.  They come to the same numbers, and these can be counted again in what was printed
and in what was written.

* `Terminal.shows` — the lines of verdicts told apart by their marks, and `countLines_report` — there is
  one for each verdict;
* `Run.Hears.printed`, `Job.printed` — what a run prints, verdict by verdict, and what a job prints;
* `Session.Accounts` — the numbers of a session, and `Session.accounts_runIn` — every session that
  returns has them.
-/

namespace Assay

open Evaluation Report

variable {σ : Type}

/-! ### Lines of verdicts -/

namespace Terminal

variable (useColor : Bool)

/-- The mark at the start of the line of a verdict. -/
def mark (s : Status) : String := styled useColor (color s) (icon s ++ " " ++ padName s.name)

/-- Whether a line is that of a verdict of a status: it starts with the mark. -/
def shows (s : Status) (line : String) : Bool := (mark useColor s).toList.isPrefixOf line.toList

/-- The number of lines for verdicts of a status.  A line is what is printed at once. -/
def countLines (s : Status) (lines : List String) : Nat := lines.countP (shows useColor s)

/-- No mark is a part of another one. -/
theorem shows_mark_append (s t : Status) (rest : String) :
    shows useColor s (mark useColor t ++ rest) = decide (t = s) := by
  rw [shows, String.toList_append]
  cases useColor <;> cases s <;> cases t <;> rfl

theorem shows_message (s : Status) (m : String) : shows useColor s ("  " ++ m) = false := by
  rw [shows, String.toList_append]
  cases useColor <;> cases s <;> rfl

theorem shows_heading (s : Status) (name version : String) (total : Nat) :
    shows useColor s s!"Running {name} v{version}: {total} case(s)" = false := by
  simp only [shows, String.toList_append]
  cases useColor <;> cases s <;> rfl

theorem shows_rule (s : Status) : shows useColor s rule = false := by
  cases useColor <;> cases s <;> rfl

/-- A closing line starts with no mark, not even in the colour of one. -/
theorem shows_closing (s : Status) (c : Text.Color) (total passed failed skipped errors : Nat) :
    shows useColor s (styled useColor c (s!"Total: {total} | Pass: {passed} | Fail: {failed} " ++
      s!"| Skip: {skipped} | Error: {errors}")) = false := by
  cases useColor with
  | false =>
    simp only [styled, if_neg Bool.false_ne_true, shows, String.toList_append]
    cases s <;> rfl
  | true =>
    simp only [styled, if_pos, Text.colored, shows, String.toList_append]
    cases s <;> cases c <;> rfl

theorem countLines_append (s : Status) (xs ys : List String) :
    countLines useColor s (xs ++ ys) = countLines useColor s xs + countLines useColor s ys :=
  List.countP_append

/-- A verdict has one line that shows its status, whatever its message. -/
theorem countLines_verdictLines (s : Status) (v : Verdict) :
    countLines useColor s (verdictLines useColor v) = if v.status = s then 1 else 0 := by
  have head : shows useColor s (mark useColor v.status ++ " " ++ v.case.identifier " › ") =
      decide (v.status = s) := by
    rw [String.append_assoc, shows_mark_append]
  have one (more : List String) (hm : countLines useColor s more = 0) :
      countLines useColor s ((mark useColor v.status ++ " " ++ v.case.identifier " › ") :: more) =
        if v.status = s then 1 else 0 := by
    rw [countLines] at hm ⊢
    rw [List.countP_cons, hm, Nat.zero_add, head]
    simp only [decide_eq_true_eq]
  unfold verdictLines
  dsimp only
  cases v.message with
  | none => exact one [] rfl
  | some m =>
    dsimp only
    by_cases hm : m = ""
    · rw [if_pos hm]
      exact one [] rfl
    · rw [if_neg hm]
      exact one _ (by simp [countLines, shows_message])

theorem countLines_flatMap_verdictLines (s : Status) (vs : List Verdict) :
    countLines useColor s (vs.flatMap (verdictLines useColor)) = countStatus s vs := by
  induction vs with
  | nil => rfl
  | cons v vs ih =>
    rw [List.flatMap_cons, countLines_append, ih, countLines_verdictLines, countStatus, countStatus,
      List.countP_cons, Nat.add_comm]
    simp only [decide_eq_true_eq]

theorem countLines_opening (s : Status) (name version : String) (total : Nat) :
    countLines useColor s (opening name version total) = 0 := by
  rw [countLines, opening, List.countP_cons, List.countP_singleton, shows_heading, shows_rule]
  rfl

theorem countLines_closing (s : Status) (vs : List Verdict) :
    countLines useColor s (closing useColor vs) = 0 := by
  rw [countLines, closing, List.countP_cons, List.countP_singleton, shows_closing, shows_rule]
  rfl

/-- **Of all that is printed for verdicts, one line for each shows its status.** -/
theorem countLines_report (s : Status) (name version : String) (total : Nat) (vs : List Verdict) :
    countLines useColor s (opening name version total ++ vs.flatMap (verdictLines useColor) ++
      closing useColor vs) = countStatus s vs := by
  rw [countLines_append, countLines_append, countLines_opening, countLines_flatMap_verdictLines,
    countLines_closing, Nat.zero_add, Nat.add_zero]

end Terminal

/-! ### What a job prints -/

/-- Told a verdict, a terminal prints the lines of it. -/
theorem Report.Desk.listen_terminal {useColor : Bool} {d : Desk} (h : d.reporters = [.terminal useColor])
    (v : Verdict) (index total : Nat) : Desk.listen v index total d =
      ({ d with printed := d.printed ++ Terminal.verdictLines useColor v }, none) := by
  rw [Desk.listen, h]
  simp [Desk.tellAll, Reporter.tell, ← h]

/-- Where verdicts are heard, a terminal prints their lines after those before. -/
theorem Run.Hears.printed {total index : Nat} {vs : List Verdict} {d e : Desk}
    (h : Hears Desk.listen total index vs d e) {useColor : Bool} (hd : d.reporters = [.terminal useColor]) :
    e.reporters = [.terminal useColor] ∧
      e.printed = d.printed ++ vs.flatMap (Terminal.verdictLines useColor) := by
  induction h with
  | nil => exact ⟨hd, (List.append_nil _).symm⟩
  | @cons index v vs d d' e hl _ ih =>
    rw [Desk.listen_terminal hd] at hl
    obtain ⟨rfl, -⟩ := Prod.mk.inj hl
    obtain ⟨reporters, printed⟩ := ih hd
    exact ⟨reporters, by rw [printed, List.flatMap_cons, List.append_assoc]⟩

/-- **What a job prints on a terminal**: the heading, the lines of its verdicts, and the closing lines. -/
theorem Job.printed {j : Job σ} {useColor : Bool}
    (h : (j.run ⟨[.terminal useColor], [], []⟩).run.halt = none) :
    (j.run ⟨[.terminal useColor], [], []⟩).desk.printed =
      Terminal.opening j.spec.name j.spec.version j.held.length ++
        (j.run ⟨[.terminal useColor], [], []⟩).run.verdicts.flatMap (Terminal.verdictLines useColor) ++
        Terminal.closing useColor (j.run ⟨[.terminal useColor], [], []⟩).run.verdicts := by
  obtain ⟨reporters, printed⟩ := (passes_of_halt_eq_none h).2.printed rfl
  have desk : (j.run ⟨[.terminal useColor], [], []⟩).desk = _ :=
    congrArg Prod.fst (complete_of_halt_eq_none h)
  rw [desk, Desk.complete, reporters]
  -- The terminal, which is the only reporter, prints the closing lines after those of the run.
  show (j.run ⟨[.terminal useColor], [], []⟩).run.state.2.printed ++ _ = _
  rw [printed]
  rfl

/-! ### Accounts -/

/-- What a terminal shows of verdicts on so many cases. -/
structure Terminal.Accounts (useColor : Bool) (spec : Spec) (total : Nat) (vs : List Verdict)
    (printed : List String) : Prop where
  announced : printed.head? = some s!"Running {spec.name} v{spec.version}: {total} case(s)"
  counted : ∀ s, countLines useColor s printed = (Tally.ofVerdicts vs).count s
  /-- The last line says how many lines there are for each status. -/
  closed : printed.getLast? = some (styled useColor (if succeeds vs then .green else .red)
    (s!"Total: {total} | Pass: {countLines useColor .pass printed} " ++
      s!"| Fail: {countLines useColor .fail printed} " ++
      s!"| Skip: {countLines useColor .skip printed} | Error: {countLines useColor .error printed}"))

/-- What the tree of a report says of verdicts on so many cases. -/
structure Report.Accounts (total : Nat) (vs : List Verdict) (records : List Json) (summary : Json) :
    Prop where
  length : records.length = total
  counted : ∀ s, countRecords s records = (Tally.ofVerdicts vs).count s
  total : summary.member? "total" = some (.int total)
  /-- The summary says how many records there are for each status. -/
  count : ∀ s, summary.member? (countName s) = some (.int (countRecords s records))
  success : summary.member? "success" = some (.bool (succeeds vs))

theorem Report.Tallies.accounts {vs : List Verdict} {records : List Json} {summary : Json}
    (h : Tallies records summary) (hr : List.Forall₂ RecordOf vs records) :
    Accounts vs.length vs records summary where
  length := hr.length_eq.symm
  counted s := by rw [countRecords_eq hr, Tally.ofVerdicts_count]
  total := by rw [h.total, hr.length_eq]
  count := h.count
  success := by rw [h.success, countRecords_eq hr, countRecords_eq hr, succeeds_eq_decide]

/-- The numbers of a session that has returned a code, with verdicts on the selected cases. -/
structure Session.Accounts (o : Options) (spec : Spec) (hs : List (Held σ)) (code : Nat)
    (vs : List Verdict) (d : Desk) : Prop where
  whole : List.Forall₂ (fun h v => h.Reads v.case) hs vs
  code_iff : code = 0 ↔ succeeds vs = true
  succeeds_iff : succeeds vs = true ↔ ∀ v ∈ vs, v.status = .pass ∨ v.status = .skip
  /-- The four counts make up the number of cases. -/
  total : (Tally.ofVerdicts vs).total = hs.length
  terminal : o.reportFormat ≠ "json" → Terminal.Accounts o.useColor spec hs.length vs d.printed
  file : o.reportFormat = "json" → ∃ path text report records summary, o.reportPath = some path ∧
    d.fileText? path = some text ∧ text = Json.render .indented report ∧
    (hs.length < digitBound → Json.parse text = .ok report) ∧
    report.member? "cases" = some (.arr records) ∧ report.member? "summary" = some summary ∧
    Report.Accounts hs.length vs records summary

namespace Job

variable {j : Job σ}

/-- A job on a terminal shows the numbers of its verdicts. -/
theorem terminalAccounts {useColor : Bool} (h : (j.run ⟨[.terminal useColor], [], []⟩).run.halt = none) :
    Terminal.Accounts useColor j.spec j.held.length (j.run ⟨[.terminal useColor], [], []⟩).run.verdicts
      (j.run ⟨[.terminal useColor], [], []⟩).desk.printed := by
  have total := (passes_of_halt_eq_none h).1.length
  rw [printed h]
  generalize (j.run ⟨[.terminal useColor], [], []⟩).run.verdicts = vs at total ⊢
  have counted (s : Status) := Terminal.countLines_report useColor s j.spec.name j.spec.version
    j.held.length vs
  refine ⟨rfl, fun s => ?_, ?_⟩
  · rw [counted, Tally.ofVerdicts_count]
  · rw [counted, counted, counted, counted, ← total, Terminal.closing, List.getLast?_append,
      List.getLast?_cons_cons, List.getLast?_singleton, Option.some_or, Tally.ofVerdicts]
    simp only [String.append_assoc]
    rfl

/-- A job with a report file reports the numbers of its verdicts. -/
theorem fileAccounts {path : String} (h : (j.run ⟨[.atPath path], [], []⟩).halt = none) :
    ∃ text report records summary,
      (j.run ⟨[.atPath path], [], []⟩).desk.fileText? path = some text ∧
      text = Json.render .indented report ∧
      (j.held.length < digitBound → Json.parse text = .ok report) ∧
      report.member? "cases" = some (.arr records) ∧ report.member? "summary" = some summary ∧
      Report.Accounts j.held.length (j.run ⟨[.atPath path], [], []⟩).run.verdicts records summary := by
  have total := (reads_of_halt h).length_eq.symm
  obtain ⟨text, found, report, reports, rendered, read⟩ := exists_report h (List.mem_singleton_self _)
  obtain ⟨records, summary, hc, hrec, hs, tallies⟩ := reports.content
  rw [total] at read
  exact ⟨text, report, records, summary, found, rendered, read, hc, hs, total ▸ tallies.accounts hrec⟩

end Job

namespace Session

theorem succeeds_iff_forall_pass_or_skip (vs : List Verdict) :
    succeeds vs = true ↔ ∀ v ∈ vs, v.status = .pass ∨ v.status = .skip := by
  rw [succeeds_iff_forall]
  refine forall₂_congr fun v _ => ?_
  cases v.status <;> simp

/-- The reporter of a session with a report file, or with a terminal. -/
theorem reporters_eq_ok {o : Options} {rs : List Reporter} (h : reporters o = .ok rs) :
    (o.reportFormat = "json" ∧ ∃ path, o.reportPath = some path ∧ rs = [.atPath path]) ∨
      o.reportFormat ≠ "json" ∧ rs = [.terminal o.useColor] := by
  unfold reporters at h
  split at h
  · rename_i json
    split at h
    · cases h
    · rename_i path hp
      split at h
      · cases h
      · cases h
        exact Or.inl ⟨json, path, hp, rfl⟩
  · rename_i json
    cases h
    exact Or.inr ⟨json, rfl⟩

theorem Ends.accounts {o : Options} {j : Job σ} {e : Ended σ} (h : Ends o j e) (hl : o.listOnly = false)
    {code : Nat} (hc : e.result = .ok code) :
    ∃ r, e.run = some r ∧ Accounts o j.spec j.held code r.verdicts e.desk := by
  cases h with
  | listed hl' =>
    rw [hl] at hl'
    cases hl'
  | unreported => cases hc
  | stopped => cases hc
  | @returned rs _ hr hh =>
    cases hc
    have reads := Job.reads_of_halt hh
    refine ⟨_, rfl, ⟨reads, ?_, succeeds_iff_forall_pass_or_skip _, ?_, ?_, ?_⟩⟩
    · rw [exitCode]
      split <;> simp_all
    · rw [Tally.ofVerdicts_total, reads.length_eq]
    · intro terminal
      obtain ⟨json, -⟩ | ⟨-, rfl⟩ := reporters_eq_ok hr
      · exact absurd json terminal
      · exact Job.terminalAccounts (Job.run_halt_of_halt hh)
    · intro json
      obtain ⟨-, path, hp, rfl⟩ | ⟨terminal, -⟩ := reporters_eq_ok hr
      · obtain ⟨text, report, records, summary, accounts⟩ := Job.fileAccounts hh
        exact ⟨path, text, report, records, summary, hp, accounts⟩
      · exact absurd json terminal

/-- **The numbers of every session that returns agree**, for every matcher, every table of operations and
whatever these do to what the cases hold: its exit code, the counts of its verdicts, and what is printed or
written. -/
theorem accounts_runIn (m : Memory σ) (isMatch : String → String → Bool) (time : String) (spec : Spec)
    (ops : Operations σ) (o : Options) (s : σ) (hl : o.listOnly = false) {code : Nat}
    (hc : (runIn m isMatch time spec ops o s).result = .ok code) :
    ∃ r, (runIn m isMatch time spec ops o s).run = some r ∧
      Accounts o spec (selected m isMatch spec o) code r.verdicts
        (runIn m isMatch time spec ops o s).desk :=
  (ends_runIn m isMatch time spec ops o s).accounts hl hc

/-- A test that passes and one whose operation is not there, on a terminal and in a file. -/
theorem accounts_runIn_halfSpec :
    let run (o : Options) := runIn .still (fun _ _ => true) "" halfSpec counted o 0
    let accounts (o : Options) := ∃ r, (run o).run = some r ∧
      Accounts o halfSpec (selected (.still : Memory Nat) (fun _ _ => true) halfSpec o) 1 r.verdicts
        (run o).desk
    let terminal : Options := { useColor := false }
    let file : Options := { reportFormat := "json", reportPath := some "out.json" }
    (run terminal).result = .ok 1 ∧ accounts terminal ∧
      (run terminal).desk.printed.getLast? = some "Total: 2 | Pass: 1 | Fail: 0 | Skip: 0 | Error: 1" ∧
      (run file).result = .ok 1 ∧ accounts file := by
  intro run accounts terminal file
  have onTerminal : (run terminal).result = .ok 1 := by decide +kernel
  have inFile : (run file).result = .ok 1 := by decide +kernel
  exact ⟨onTerminal, accounts_runIn _ _ _ _ _ terminal 0 rfl onTerminal, by decide +kernel, inFile,
    accounts_runIn _ _ _ _ _ file 0 rfl inFile⟩

end Session

end Assay
