import Assay.Comparison.Deep
import Assay.Comparison.Quantity
import Assay.Comparison.Tolerance

/-!
# Equality within a tolerance

Two numbers are within a tolerance when their distance is at most one of its bounds. Two values are
approximately equal when they are deeply equal but for pairs of numbers, and each such pair is
within the tolerance that its path of field names leads to.
-/

namespace Assay

namespace Tolerance

/-- Whether a quantity is at most a bound, which must be a number. -/
def atMost (x : Quantity) (bound : Value) : Except Fault Bool :=
  match Quantity.bound? bound with
  | some q => .ok (x.le q)
  | none => .error (.noOrder x.className bound.qualifiedName)

/-- Whether two numbers are within a tolerance. Each bound that a structure has is enough by itself,
and a structure without bounds accepts every pair. -/
def within (t : Tolerance) (a b : Value) : Except Fault Bool :=
  match t with
  | .plain bound => do atMost (← Quantity.difference a b) bound
  | .structured none none _ => .ok true
  | .structured abs rel _ => do
    let d ← Quantity.difference a b
    if abs.any fun x => d.le (.ofBound x) then return true
    match rel with
    | none => return false
    | some factor => return d.le (← Quantity.scaled b factor)

/-- The tolerance for the value under a key. -/
def forKey (t : Tolerance) (key : Value) : Except Fault Tolerance :=
  match t with
  | .plain _ => .ok t
  | .structured _ _ _ => do return t.forField (← key.text)

end Tolerance

namespace Value

mutual

/-- Equality within a tolerance. -/
def approxEqual (t : Tolerance) : Value → Value → Except Fault Bool
  | .map _ as, .map _ bs => if sameKeySet as bs then approxEntries t bs as else .ok false
  | .list xs, .list ys => if xs.length = ys.length then approxAll t xs ys else .ok false
  | .list xs, .tuple ys => if xs.length = ys.length then approxAll t xs ys else .ok false
  | .tuple xs, .list ys => if xs.length = ys.length then approxAll t xs ys else .ok false
  | .tuple xs, .tuple ys => if xs.length = ys.length then approxAll t xs ys else .ok false
  | a, b => if a.isNumber && b.isNumber then t.within a b else deepEqual a b

/-- Equality of the values of entries with those under the same keys, each within the tolerance for
its key; it stops at the first difference. -/
def approxEntries (t : Tolerance) (bs : List (Value × Value)) :
    List (Value × Value) → Except Fault Bool
  | [] => .ok true
  | (k, v) :: es => do
    let field ← t.forKey k
    match lookup k bs with
    | none => return false
    | some w => if ← approxEqual field v w then approxEntries t bs es else return false

/-- Equality of two sequences item by item within a tolerance; it stops at the first difference. -/
def approxAll (t : Tolerance) : List Value → List Value → Except Fault Bool
  | x :: xs, y :: ys => do if ← approxEqual t x y then approxAll t xs ys else return false
  | _, _ => .ok true

end

theorem approxEqual_of_numbers {t : Tolerance} {a b : Value} (ha : a.isNumber = true)
    (hb : b.isNumber = true) : approxEqual t a b = t.within a b := by
  cases a <;> simp_all [approxEqual, isNumber, unwrapped]

end Value

end Assay
