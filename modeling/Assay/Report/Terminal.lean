import Assay.Run.Verdict
import Assay.Text.Ansi

/-!
# Terminal reports

A heading, a line for each verdict with its message below it, and a closing line with the tally. The
lines may be coloured.
-/

namespace Assay.Terminal

open Assay.Text

/-- The colour of a status. -/
def color : Status → Color
  | .pass => .green
  | .fail => .red
  | .skip => .cyan
  | .error => .yellow

/-- The sign of a status. -/
def icon : Status → String
  | .pass => "✓"
  | .fail => "✗"
  | .skip => "○"
  | .error => "⚠"

/-- The rule between the parts of a report. -/
def rule : String := String.ofList (List.replicate 60 '=')

/-- A text, in a colour if colours are in use. -/
def styled (useColor : Bool) (c : Color) (s : String) : String := if useColor then colored c s else s

/-- A text filled up with spaces to five characters. -/
def padName (s : String) : String := s ++ String.ofList (List.replicate (5 - s.length) ' ')

/-- The heading of a run. -/
def opening (name version : String) (total : Nat) : List String :=
  [s!"Running {name} v{version}: {total} case(s)", rule]

/-- The lines of a verdict. -/
def verdictLines (useColor : Bool) (v : Verdict) : List String :=
  let mark := styled useColor (color v.status) (icon v.status ++ " " ++ padName v.status.name)
  let head := mark ++ " " ++ v.case.identifier " › "
  match v.message with
  | none => [head]
  | some m => if m = "" then [head] else [head, "  " ++ m]

/-- The closing lines of a run. -/
def closing (useColor : Bool) (vs : List Verdict) : List String :=
  let t := Tally.ofVerdicts vs
  let line := s!"Total: {vs.length} | Pass: {t.passed} | Fail: {t.failed} " ++
    s!"| Skip: {t.skipped} | Error: {t.errors}"
  [rule, styled useColor (if succeeds vs then .green else .red) line]

end Assay.Terminal
