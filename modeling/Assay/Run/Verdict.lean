import Assay.Spec.Case

/-!
# Verdicts and tallies

Each case gets one verdict. A tally counts the verdicts of each status; a run succeeds when none has
failed or gone wrong. The main statement says that the four counts make up the whole.
-/

namespace Assay

/-- How a case came out. -/
inductive Status where
  | pass
  | fail
  | skip
  | error
deriving DecidableEq, Repr

namespace Status

/-- The name of a status. -/
def name : Status → String
  | .pass => "PASS"
  | .fail => "FAIL"
  | .skip => "SKIP"
  | .error => "ERROR"

/-- All statuses, in the order of reports. -/
def all : List Status := [.pass, .fail, .skip, .error]

/-- The status of a name. -/
def ofName? (name : String) : Option Status := all.find? fun s => s.name == name

/-- The wording of a name that no status has. -/
def unknownMessage (name : String) : String := Text.quote name ++ " is not a valid Status"

/-- Whether a status leaves a run successful. -/
def isOk : Status → Bool
  | .pass => true
  | .skip => true
  | _ => false

theorem ofName?_name (s : Status) : ofName? s.name = some s := by cases s <;> decide

end Status

/-- Why a case could not be judged. -/
inductive ErrorKind where
  | missingOperation
  | invocationFailure
  | forbiddenSpecialValue
  | toleranceRequired
  | comparisonFailure
deriving DecidableEq, Repr

/-- The name of a kind of error. -/
def ErrorKind.name : ErrorKind → String
  | .missingOperation => "MissingOperation"
  | .invocationFailure => "InvocationFailure"
  | .forbiddenSpecialValue => "ForbiddenSpecialValue"
  | .toleranceRequired => "ToleranceRequired"
  | .comparisonFailure => "ComparisonFailure"

/-- The verdict on a case. -/
structure Verdict where
  case : Case
  status : Status
  message : Option String := none
  actual : Option Value := none
  errorKind : Option ErrorKind := none

/-- Whether a verdict leaves a run successful. -/
def Verdict.isOk (v : Verdict) : Bool := v.status.isOk

/-- The number of verdicts of a status. -/
def countStatus (s : Status) (vs : List Verdict) : Nat := vs.countP fun v => v.status = s

/-- Whether a run of these verdicts succeeds. -/
def succeeds (vs : List Verdict) : Bool := vs.all Verdict.isOk

/-- The counts of the four statuses. -/
structure Tally where
  passed : Nat
  failed : Nat
  skipped : Nat
  errors : Nat
deriving DecidableEq, Repr

namespace Tally

/-- The tally of verdicts. -/
def ofVerdicts (vs : List Verdict) : Tally :=
  ⟨countStatus .pass vs, countStatus .fail vs, countStatus .skip vs, countStatus .error vs⟩

/-- The count of a status. -/
def count (t : Tally) : Status → Nat
  | .pass => t.passed
  | .fail => t.failed
  | .skip => t.skipped
  | .error => t.errors

/-- The number of all verdicts. -/
def total (t : Tally) : Nat := t.passed + t.failed + t.skipped + t.errors

theorem ofVerdicts_count (vs : List Verdict) (s : Status) :
    (ofVerdicts vs).count s = countStatus s vs := by
  cases s <;> rfl

/-- The four counts make up the number of verdicts. -/
theorem ofVerdicts_total (vs : List Verdict) : (ofVerdicts vs).total = vs.length := by
  induction vs with
  | nil => rfl
  | cons v vs ih =>
    simp only [ofVerdicts, total, countStatus, List.countP_cons, List.length_cons] at ih ⊢
    cases v.status <;> simp <;> omega

/-- A run succeeds exactly when nothing has failed or gone wrong. -/
theorem succeeds_iff (vs : List Verdict) :
    succeeds vs = true ↔ (ofVerdicts vs).failed = 0 ∧ (ofVerdicts vs).errors = 0 := by
  induction vs with
  | nil => simp [succeeds, ofVerdicts, countStatus]
  | cons v vs ih =>
    simp only [succeeds, ofVerdicts, countStatus, List.all_cons, List.countP_cons,
      Bool.and_eq_true, Verdict.isOk] at ih ⊢
    cases v.status <;> simp_all [Status.isOk]

end Tally

end Assay
