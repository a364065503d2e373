import Assay.Number.Double

/-!
# Arithmetic on doubles

Every operation works on exact values and rounds once.
-/

namespace Assay.Double

/-- A sum or difference in exact units, rounded; an exact zero is positive. -/
def ofSignedUnits (u : Int) : Double := ofUnits (u < 0) u.natAbs 1

/-- The same magnitude with the other sign. -/
def neg : Double → Double
  | .nan k => .nan k
  | .infinite s => .infinite (!s)
  | .finite s m => .finite (!s) m

/-- The magnitude with a positive sign. -/
def abs : Double → Double
  | .nan k => .nan k
  | .infinite _ => .infinite false
  | .finite _ m => .finite false m

/-- The sum, rounded once; two negative zeros make a negative zero. -/
def add : Double → Double → Double
  | .nan k, _ => .nan k
  | _, .nan k => .nan k
  | .infinite s, .infinite t => if s = t then .infinite s else .nan 0
  | .infinite s, _ => .infinite s
  | _, .infinite t => .infinite t
  | .finite s m, .finite t n =>
    if s ∧ t ∧ m.val = 0 ∧ n.val = 0 then signedZero true
    else
      ofSignedUnits ((if s then -(unitsOfRank m : Int) else unitsOfRank m) +
        (if t then -(unitsOfRank n : Int) else unitsOfRank n))

/-- The difference, rounded once. -/
def sub (x y : Double) : Double := add x y.neg

/-- The product, rounded once; zero times an infinity is not a number. -/
def mul : Double → Double → Double
  | .nan k, _ => .nan k
  | _, .nan k => .nan k
  | .infinite s, .infinite t => .infinite (s != t)
  | .infinite s, .finite t n => if n.val = 0 then .nan 0 else .infinite (s != t)
  | .finite s m, .infinite t => if m.val = 0 then .nan 0 else .infinite (s != t)
  | .finite s m, .finite t n => ofUnits (s != t) (unitsOfRank m * unitsOfRank n) oneUnits

/-- The quotient, rounded once, for a divisor that is not zero. -/
def div : Double → Double → Double
  | .nan k, _ => .nan k
  | _, .nan k => .nan k
  | .infinite _, .infinite _ => .nan 0
  | .infinite s, .finite t _ => .infinite (s != t)
  | .finite s _, .infinite t => signedZero (s != t)
  | .finite s m, .finite t n =>
    if n.val = 0 then if m.val = 0 then .nan 0 else .infinite (s != t)
    else ofUnits (s != t) (unitsOfRank m * oneUnits) (unitsOfRank n)

/-- The quotient of two integers, rounded once from the exact ratio; the divisor is not zero. -/
def ofRatio (a b : Int) : Double :=
  ofUnits ((a < 0) != (b < 0)) (a.natAbs * oneUnits) b.natAbs

/-- A zero of either sign. -/
def isZero : Double → Bool
  | .finite _ m => m.val = 0
  | _ => false

end Assay.Double
