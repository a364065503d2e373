import Assay.Number.Arithmetic
import Assay.Number.Layout
import Assay.Value.Basic
import Assay.Value.Fault

/-!
# Quantities

Differences and bounds of a numeric comparison: an integer, a double, or an exact rational where an
integer is beyond the range of doubles. Order is exact across the three kinds. The main statements
say that order on finite quantities is order of rationals and that not-a-number is in order with
nothing.
-/

namespace Assay

/-- A bound of a structure: bounds that are read are doubles, and code may also give integers. -/
inductive Bound where
  | int (i : Int)
  | float (x : Double)
deriving DecidableEq, Repr

/-- A quantity. -/
inductive Quantity where
  | int (i : Int)
  | double (x : Double)
  | ratio (q : Rat)
deriving DecidableEq

namespace Quantity

/-- The class of a quantity, for messages. -/
def className : Quantity → String
  | .int _ => "int"
  | .double _ => "float"
  | .ratio _ => "Fraction"

/-- The exact value of a finite quantity. -/
def rational? : Quantity → Option Rat
  | .int i => some i
  | .double x => x.toRat?
  | .ratio q => some q

/-- Whether a quantity is not a number. -/
def isNan : Quantity → Bool
  | .double (.nan _) => true
  | _ => false

/-- Exact order; not-a-number is neither below nor above anything. -/
def le (x y : Quantity) : Bool :=
  match x.rational?, y.rational? with
  | some p, some q => p ≤ q
  | some _, none => y == .double (.infinite false)
  | none, some _ => x == .double (.infinite true)
  | none, none =>
    (x == .double (.infinite true) && !y.isNan) || (y == .double (.infinite false) && !x.isNan)

/-- A number that can be subtracted: integers, booleans as 0 and 1, and doubles. -/
def ofValue? (v : Value) : Option Quantity :=
  match v.unwrapped with
  | .bool b => some (.int (if b then 1 else 0))
  | .int i => some (.int i)
  | .float x => some (.double x)
  | _ => none

/-- A number that can be a bound: every number that can be subtracted, and numeric scalars. -/
def bound? (v : Value) : Option Quantity :=
  match v with
  | .scalar _ (.bool b) => some (.int (if b then 1 else 0))
  | .scalar _ (.int i) => some (.int i)
  | .scalar _ (.float x) => some (.double x)
  | v => ofValue? v

/-- The absolute value. -/
def abs : Quantity → Quantity
  | .int i => .int i.natAbs
  | .double x => .double x.abs
  | .ratio q => .ratio (if q < 0 then -q else q)

/-- A double, unless it is infinite. -/
def withinRange? : Double → Option Double
  | .infinite _ => none
  | x => some x

/-- The double of an integer, unless the integer is beyond the range of doubles. -/
def doubleOfInt? (i : Int) : Option Double := withinRange? (Double.ofInt i)

/-- The distance of an integer beyond the range of doubles and a double: exact for a finite double
and infinite for any other. -/
def distanceBeyond (i : Int) (x : Double) : Quantity :=
  match x.toRat? with
  | some q => abs (.ratio (i - q))
  | none => .double (.infinite false)

/-- The distance of two quantities; a double is subtracted in doubles, if the other quantity has
one. -/
def distance : Quantity → Quantity → Quantity
  | .int i, .int j => .int (i - j).natAbs
  | .double x, .double y => .double (x.sub y).abs
  | .int i, .double y =>
    (doubleOfInt? i).elim (distanceBeyond i y) fun x => .double (x.sub y).abs
  | .double x, .int j =>
    (doubleOfInt? j).elim (distanceBeyond j x) fun y => .double (x.sub y).abs
  | x, y => abs (.ratio (x.rational?.getD 0 - y.rational?.getD 0))

/-- The distance of two values, where both are numbers. -/
def difference (a b : Value) : Except Fault Quantity :=
  match ofValue? a, ofValue? b with
  | some x, some y => .ok (distance x y)
  | _, _ => .error (.noDifference a.qualifiedName b.qualifiedName)

/-- A bound as quantity. -/
def ofBound : Bound → Quantity
  | .int i => .int i
  | .float x => .double x

/-- The magnitude of an integer beyond the range of doubles times a factor: exact, which needs a
finite factor. -/
def scaledBeyond (i : Int) : Double → Except Fault Quantity
  | .nan _ => .error .nanRatio
  | .infinite _ => .error .infiniteRatio
  | .finite s m => .ok (.ratio (i.natAbs * (Double.finite s m).toRat?.getD 0))

/-- A magnitude times an integer factor beyond the range of doubles: exact, which needs a finite
magnitude. -/
def beyondScaled (k : Int) : Double → Except Fault Quantity
  | .nan _ => .error .nanRatio
  | .infinite _ => .error .infiniteRatio
  | .finite s m => .ok (.ratio ((Double.finite s m).toRat?.getD 0 * k))

/-- The magnitude of a value times a factor. Two integers are multiplied as such, and otherwise an
integer is multiplied in doubles, if it has one. -/
def scaled (v : Value) (factor : Bound) : Except Fault Quantity :=
  match ofValue? v, factor with
  | some (.double x), .float f => .ok (.double (x.abs.mul f))
  | some (.double x), .int k =>
    (doubleOfInt? k).elim (beyondScaled k x.abs) fun f => .ok (.double (x.abs.mul f))
  | some (.int i), .float f =>
    (doubleOfInt? i.natAbs).elim (scaledBeyond i f) fun x => .ok (.double (x.mul f))
  | some (.int i), .int k => .ok (.int (i.natAbs * k))
  | _, _ => .error (.noMagnitude v.qualifiedName)

/-- The dump text of a quantity; a ratio keeps its denominator. -/
def dump : Quantity → String
  | .int i => toString i
  | .double x => Layout.plain.text x
  | .ratio q => toString q.num ++ "/" ++ toString q.den

/-- On exact quantities the order is that of rationals. -/
theorem le_of_exact {x y : Quantity} {p q : Rat} (hx : x.rational? = some p) (hy : y.rational? = some q) :
    x.le y = decide (p ≤ q) := by
  simp [le, hx, hy]

theorem le_nan (x : Quantity) (k : Nat) : x.le (.double (.nan k)) = false := by
  have none : rational? (.double (.nan k)) = none := rfl
  cases h : x.rational? <;> simp [le, h, none, isNan]

end Quantity

end Assay
