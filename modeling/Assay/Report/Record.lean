import Assay.Run.Operation
import Assay.Run.Verdict
import Assay.Spec.Problem
import Assay.Comparison.Mode

/-!
# Report files

A report file is a JSON object with the specification, a tally and a record for each verdict. It is
written only if it fits its form: every mode is one of the three and every expected-failure mark a
truth value.
-/

namespace Assay.Report

/-- The record of a verdict. -/
structure Record where
  id : String
  path : List String
  op : String
  status : Status
  compare : Value
  xfail : Value
  message : Option String
  errorKind : Option ErrorKind
  actual : Option Value

namespace Record

/-- The record of a verdict; an empty message is left out, and the actual value is the one that a
report can hold. -/
def ofVerdict (v : Verdict) : Except Fault Record := do
  let actual ← match v.actual with
    | none => .ok none
    | some a => a.reported.map some
  return {
    id := v.case.test.id
    path := v.case.path
    op := v.case.test.op
    status := v.status
    compare := v.case.compare
    xfail := v.case.test.xfail
    message := v.message.filter (· ≠ "")
    errorKind := v.errorKind
    actual := actual }

/-- The member of a name, if there is a value for it. -/
def optional (name : String) (j : Option Json) : List (String × Json) :=
  match j with
  | none => []
  | some j => [(name, j)]

/-- The tree of a record. -/
def toJson (r : Record) : Except Fault Json := do
  let compare ← r.compare.toJson
  let xfail ← r.xfail.toJson
  let actual ← match r.actual with
    | none => .ok none
    | some a => a.toJson.map some
  return .obj ([
    ("id", .str r.id),
    ("path", .arr (r.path.map .str)),
    ("op", .str r.op),
    ("status", .str r.status.name),
    ("compare", compare),
    ("xfail", xfail)] ++
    optional "message" (r.message.map .str) ++
    optional "error_kind" (r.errorKind.map fun k => .str k.name) ++
    optional "actual" actual)

/-- The complaint about a record that does not fit; one about the mark comes before one about the
mode. -/
def complaint? (r : Record) : Option Complaint :=
  match r.xfail with
  | .bool _ =>
    match Mode.ofValue? r.compare with
    | some _ => none
    | none => some (.notListed r.compare)
  | v => some (.notOfType v "boolean")

end Record

/-- The complaint about records: that about the last one that does not fit. -/
def complaint? (rs : List Record) : Option Complaint := rs.reverse.findSome? Record.complaint?

/-- The trees of records. -/
def recordTrees : List Record → Except Fault (List Json)
  | [] => .ok []
  | r :: rs => do
    let j ← r.toJson
    return j :: (← recordTrees rs)

/-- The tree of a tally. -/
def summary (vs : List Verdict) : Json :=
  let t := Tally.ofVerdicts vs
  .obj [
    ("total", .int vs.length),
    ("passed", .int t.passed),
    ("failed", .int t.failed),
    ("skipped", .int t.skipped),
    ("errors", .int t.errors),
    ("success", .bool (succeeds vs))]

/-- The version of the form of reports. -/
def formVersion : String := "1.0.0"

/-- The text of a report, made at a time. -/
def render (time name version : String) (vs : List Verdict) (rs : List Record) :
    Except Halt String :=
  match complaint? rs with
  | some c =>
    match c.message with
    | .ok m => .error (.unfit m)
    | .error f => .error (.fault f)
  | none =>
    match recordTrees rs with
    | .error f => .error (.fault f)
    | .ok cases =>
      .ok (Json.render .indented (.obj [
        ("schema_version", .str formVersion),
        ("generated_at", .str time),
        ("spec", .obj [("name", .str name), ("version", .str version)]),
        ("summary", summary vs),
        ("cases", .arr cases)]))

end Assay.Report
