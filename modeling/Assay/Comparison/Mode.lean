import Assay.Comparison.Approx
import Assay.Value.Written

/-!
# Comparison modes

Strict comparison compares canonical texts, deep comparison structures, and approximate comparison
structures with a tolerance for numbers.
-/

namespace Assay

/-- A comparison mode. -/
inductive Mode where
  | strict
  | deep
  | approx
deriving DecidableEq, Repr

namespace Mode

/-- The name of a mode. -/
def name : Mode → String
  | .strict => "strict"
  | .deep => "deep"
  | .approx => "approx"

/-- All modes. -/
def all : List Mode := [.strict, .deep, .approx]

/-- The mode that a value names. -/
def ofValue? (v : Value) : Option Mode :=
  match v.unwrapped with
  | .str s => all.find? fun m => m.name == s
  | _ => none

end Mode

namespace Value

/-- Equality of canonical texts. -/
def strictEqual (a b : Value) : Except Fault Bool := do
  let s ← a.canonical
  let t ← b.canonical
  return s == t

/-- Compares two values in the mode that a value names; approximate comparison needs a tolerance. -/
def compare (mode : Value) (tolerance : Option Tolerance) (a b : Value) : Except Fault Bool :=
  match Mode.ofValue? mode with
  | some .strict => strictEqual a b
  | some .deep => deepEqual a b
  | some .approx =>
    match tolerance with
    | none => .error .toleranceMissing
    | some (.plain .null) => .error .toleranceMissing
    | some t => approxEqual t a b
  | none => do .error (.unknownMode (← mode.text))

/-- A strict comparison of two values with canonical texts compares the texts. -/
theorem strictEqual_of_canonical {a b : Value} {s t : List Char} (ha : a.canonical = .ok s)
    (hb : b.canonical = .ok t) : strictEqual a b = .ok (s == t) := by
  simp [strictEqual, ha, hb, bind, Except.bind, pure, Except.pure]

end Value

end Assay
