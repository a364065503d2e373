import Assay.Number.Grid

/-!
# The fewest decimal digits that read back

A positive grid point is written with the fewest digits that lie in the interval of numbers
rounding to it; of two such decimals the nearer one is taken, and a tie goes to the even digit.
The search walks the decimal exponent downwards and looks at the two neighbours on each decimal
grid, in exact integer arithmetic.
-/

namespace Assay

/-- The decimal `digits · 10 ^ exponent`. -/
structure Decimal where
  digits : Nat
  exponent : Int
deriving DecidableEq, Repr

namespace Decimal

/-- The interval of numbers that round to one grid point, in half units of 2⁻¹⁰⁷⁵, with the point
itself; the ends belong to it when `closed`. -/
structure Interval where
  low : Nat
  mid : Nat
  high : Nat
  closed : Bool
deriving DecidableEq, Repr

/-- The interval around a positive grid point given in units. -/
def Interval.around (g : Grid) (units : Nat) : Interval :=
  ⟨units + g.below units, 2 * units, units + g.above units, g.isEven units⟩

/-- The numerator and denominator that scale half units to multiples of `10 ^ exponent`. -/
def scaling (exponent : Int) : Nat × Nat :=
  if 0 ≤ exponent then (1, Nat.pow 10 exponent.toNat <<< 1075)
  else (Nat.pow 10 (-exponent).toNat, 1 <<< 1075)

/-- Whether `c · 10 ^ exponent` lies in the interval. -/
def Interval.holds (i : Interval) (exponent : Int) (c : Nat) : Bool :=
  let (n, d) := scaling exponent
  c ≠ 0 &&
    if i.closed then i.low * n ≤ c * d && c * d ≤ i.high * n
    else i.low * n < c * d && c * d < i.high * n

/-- The multiple of `10 ^ exponent` next to the midpoint that lies in the interval, if any. -/
def Interval.hit (i : Interval) (exponent : Int) : Option Nat :=
  let (n, d) := scaling exponent
  let floor := i.mid * n / d
  match i.holds exponent floor, i.holds exponent (floor + 1) with
  | true, true => some (roundHalfEven (i.mid * n) d)
  | true, false => some floor
  | false, true => some (floor + 1)
  | false, false => none

/-- Walks the exponent downwards to the first decimal grid with a hit. -/
def Interval.search (i : Interval) : Nat → Int → Decimal
  | 0, e => ⟨i.mid, e⟩
  | fuel + 1, e =>
    match i.hit e with
    | some c => ⟨c, e⟩
    | none => i.search fuel (e - 1)

/-- The shortest decimal of a positive grid point given in units. The search starts two places
above the leading digit, and 25 steps reach the seventeenth digit. -/
def shortest (g : Grid) (units : Nat) : Decimal :=
  let leading : Int := Int.fdiv (((Nat.log2 units : Nat) - 1074 : Int) * 30103) 100000
  (Interval.around g units).search 25 (leading + 2)

end Decimal

end Assay
