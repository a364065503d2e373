import Assay.Number.Arithmetic

/-!
# A fractional power

The power 12/5 of a positive double, rounded once from a rational that is exact to many digits: the
fifth root of the twelfth power is taken in fixed point.
-/

namespace Assay

/-- The greatest integer below a bound, given by bits, whose fifth power is at most `n`. -/
def fifthRoot (n : Nat) : Nat → Nat → Nat
  | 0, r => r
  | bits + 1, r =>
    let next := r + (1 <<< bits)
    if Nat.pow next 5 ≤ n then fifthRoot n bits next else fifthRoot n bits r

namespace Double

/-- The number of places of the fixed point, in bits. -/
def fixedBits : Nat := 256

/-- A positive double to the power 12/5; zero and not-a-number stay. -/
def powTwelveFifths : Double → Double
  | .finite false m =>
    let u := unitsOfRank m
    let x := (u <<< fixedBits) / oneUnits
    let scaled := Nat.pow x 12 >>> (7 * fixedBits)
    let root := fifthRoot scaled (Nat.log2 scaled / 5 + 1) 0
    ofUnits false (root * oneUnits) (1 <<< fixedBits)
  | .infinite false => .infinite false
  | _ => .nan 0

end Double

end Assay
