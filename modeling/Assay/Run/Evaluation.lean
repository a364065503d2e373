import Assay.Comparison.Mode
import Assay.Run.Held
import Assay.Run.Operation
import Assay.Run.Verdict
import Assay.Value.Normal

/-!
# Evaluating a case

A case is judged by steps, and the first that decides gives the verdict: a case may be skipped, its
operation missing, the call may fail, the result may be special, a tolerance may be needed, the
comparison may fail, and otherwise the result matches or does not. The operation is called at most
once.
-/

namespace Assay

/-- What evaluating a case comes to, with the state afterwards. -/
structure Evaluation (σ : Type) where
  result : Except Halt Verdict
  awaited : Bool
  state : σ

namespace Evaluation

/-- The message for a result that holds a special value. -/
def specialMessage : String :=
  "Implementation returned NaN or Infinity (forbidden special value)"

/-- The message for an approximate comparison without tolerance. -/
def toleranceMessage : String := "compare=\"approx\" requires tolerance to be set"

/-- An error verdict. -/
def errorVerdict (c : Case) (kind : ErrorKind) (message : String) (actual : Option Value) :
    Verdict :=
  ⟨c, .error, some message, actual, some kind⟩

/-- The message of a mismatch; a value that cannot be written stops the run. -/
def mismatchMessage (c : Case) (actual : Value) : Except Fault String := do
  let expected ← c.test.expected.display
  let got ← actual.display
  return "Expected " ++ expected ++ ", got " ++ got ++
    if c.test.xfail.truth then " (marked xfail but matched)" else ""

/-- The tolerance that a comparison gets. -/
def effectiveTolerance (c : Case) : Option Tolerance := if c.hasTolerance then c.tolerance else none

/-- An error verdict that describes an error. One whose text cannot be asked for leaves with the error
that asking raises. -/
def describing (c : Case) (kind : ErrorKind) (lead : String) (f : Failure) (actual : Option Value) :
    Except Fault Verdict :=
  match f.describe with
  | .ok text => .ok (errorVerdict c kind (lead ++ text) actual)
  | .error g => .error (.raised g)

/-- The verdict on a normal result. The mark of absence is judged like any value, but a verdict that
holds it holds nothing. -/
def judge (c : Case) (actual : Value) : Except Fault Verdict :=
  if actual.isSpecial then
    .ok (errorVerdict c .forbiddenSpecialValue specialMessage actual.present?)
  else if Mode.ofValue? c.compare = some .approx ∧ ¬ c.hasTolerance then
    .ok (errorVerdict c .toleranceRequired toleranceMessage actual.present?)
  else
    match Value.compare c.compare (effectiveTolerance c) actual c.test.expected with
    | .error f => describing c .comparisonFailure "Comparison failed: " f.failure actual.present?
    | .ok matched =>
      if matched != c.test.xfail.truth then .ok ⟨c, .pass, none, actual.present?, none⟩
      else do return ⟨c, .fail, some (← mismatchMessage c actual), actual.present?, none⟩

/-- The verdict on what an operation came to. A result whose normal form cannot be made counts like an
error of the operation. -/
def judgeOutcome (c : Case) : Outcome → Except Halt Verdict
  | .returned v => (judge c v.normalized).mapError .fault
  | .unreadable f => (describing c .invocationFailure "Exception: " f none).mapError .fault
  | .raised f => (describing c .invocationFailure "Exception: " f none).mapError .fault
  | .ended e => .error (.ended e)

/-- The text by which a case is skipped, if it is. -/
def skipText? (c : Case) : Option String :=
  match c.test.skip.map Value.unwrapped with
  | some (.str s) => some s
  | _ => none

/-- Evaluates a held case with a table of operations. The operation gets the input as it reads when it is
called, and its result is judged by the case as it reads afterwards. -/
def ofHeld {σ : Type} (ops : Operations σ) (h : Held σ) (state : σ) : Evaluation σ :=
  match skipText? h.case with
  | some s => ⟨.ok ⟨h.read state, .skip, some s, none, none⟩, false, state⟩
  | none =>
    match ops h.case.test.op with
    | none =>
      let message := "Operation '" ++ h.case.test.op ++ "' not found in implementation"
      ⟨.ok (errorVerdict (h.read state) .missingOperation message none), false, state⟩
    | some f =>
      let (reply, after) := f (h.input state) (h.hand state)
      ⟨judgeOutcome (h.read after) reply.outcome, reply.awaited, after⟩

/-- Evaluates a case whose objects nothing changes. -/
def ofCase {σ : Type} (ops : Operations σ) (c : Case) (state : σ) : Evaluation σ :=
  ofHeld ops (.still c) state

end Evaluation

end Assay
