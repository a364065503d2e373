import Assay.Report.Reporter
import Assay.Spec.Selection

/-!
# Sessions

A session selects the cases of a specification, runs them and reports the verdicts. It ends with an
exit code: 0 when the run succeeds or only lists its cases, and 1 otherwise.
-/

namespace Assay

/-- What a session is asked to do. -/
structure Options where
  select : List String := []
  reportFormat : String := "terminal"
  reportPath : Option String := none
  useColor : Bool := true
  listOnly : Bool := false

namespace Session

open Report

/-- Why a session does not end with an exit code. -/
inductive Fault where
  | pathMissing
  | halted (h : Halt)
deriving DecidableEq, Repr

/-- The message for a report file without a path. -/
def pathMissingMessage : String := "--report json requires --report-path"

/-- The error that a fault is raised as. -/
def Fault.failure : Fault → Failure
  | .pathMissing => .told "ValueError" pathMissingMessage
  | .halted h => h.failure

/-- The reporters that options ask for. -/
def reporters (o : Options) : Except Fault (List Reporter) :=
  if o.reportFormat = "json" then
    match o.reportPath with
    | none => .error .pathMissing
    | some path => if path = "" then .error .pathMissing else .ok [.atPath path]
  else .ok [.terminal o.useColor]

/-- A run with its reports: the run as it stopped, the desk afterwards, and what stopped the run or
its completion. -/
structure Execution (σ : Type) where
  run : Run (σ × Desk)
  desk : Desk
  halt : Option Halt

/-- What a run comes to with its reports: the desk is told the end of a run that is not stopped. -/
def Execution.ofRun {σ : Type} (time : String) (run : Run (σ × Desk)) : Execution σ :=
  match run.halt with
  | some h => ⟨run, run.state.2, some h⟩
  | none =>
    let (desk, halt) := run.state.2.complete time run.verdicts
    ⟨run, desk, halt⟩

/-- Runs held cases and reports them at a desk. -/
def executeHeld {σ : Type} (time : String) (spec : Spec) (hs : List (Held σ)) (ops : Operations σ)
    (d : Desk) (s : σ) : Execution σ :=
  .ofRun time <| Run.ofAll ops.onFirst Desk.listen.onSecond (hs.map Held.onFirst)
    (s, d.start spec.name spec.version hs.length)

/-- Runs cases whose objects nothing changes, and reports them at a desk. -/
def execute {σ : Type} (time : String) (spec : Spec) (cases : List Case) (ops : Operations σ)
    (d : Desk) (s : σ) : Execution σ :=
  executeHeld time spec (cases.map .still) ops d s

/-- The exit code of a run. -/
def exitCode (vs : List Verdict) : Nat := if succeeds vs then 0 else 1

/-- What a session has come to: its result, the desk, and the run, if there was one. -/
structure Ended (σ : Type) where
  result : Except Fault Nat
  desk : Desk
  run : Option (Run (σ × Desk))

/-- What a session comes to: what the selected cases are called is listed, or they are executed at a desk
with the reporters that are asked for. -/
def ofCases {σ : Type} (o : Options) (labels : List String) (execute : Desk → Execution σ) : Ended σ :=
  if o.listOnly then ⟨.ok 0, ⟨[], labels, []⟩, none⟩
  else
    match reporters o with
    | .error f => ⟨.error f, ⟨[], [], []⟩, none⟩
    | .ok rs =>
      let e := execute ⟨rs, [], []⟩
      match e.halt with
      | some h => ⟨.error (.halted h), e.desk, some e.run⟩
      | none => ⟨.ok (exitCode e.run.verdicts), e.desk, some e.run⟩

/-- Runs a session with a table of operations on the cases that a matcher selects, as a memory holds
them. -/
def runIn {σ : Type} (m : Memory σ) (isMatch : String → String → Bool) (time : String) (spec : Spec)
    (ops : Operations σ) (o : Options) (s : σ) : Ended σ :=
  let hs := Held.selectBy isMatch o.select (m.hold spec.cases)
  ofCases o (hs.map fun h => h.case.label) fun d => executeHeld time spec hs ops d s

/-- Runs a session with a table of operations on the cases that a matcher selects, where nothing changes
their objects. -/
def runBy {σ : Type} (isMatch : String → String → Bool) (time : String) (spec : Spec)
    (ops : Operations σ) (o : Options) (s : σ) : Ended σ :=
  runIn .still isMatch time spec ops o s

/-- Runs a session with a table of operations; patterns are globs. -/
def run {σ : Type} (time : String) (spec : Spec) (ops : Operations σ) (o : Options) (s : σ) :
    Ended σ :=
  runBy Glob.«matches» time spec ops o s

/-- The text that lines make on a stream; anything but a terminal gets them without colours. -/
def streamText (tty : Bool) (lines : List String) : String :=
  String.join (lines.map fun l => (if tty then l else Text.plain l) ++ "\n")

end Session

end Assay
