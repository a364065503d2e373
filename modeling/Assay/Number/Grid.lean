import Assay.Number.Arithmetic

/-!
# Binary grids inside the double grid

Half and single precision numbers are doubles that lie on a coarser grid. A grid gives the step at
each magnitude, the neighbours of a magnitude on it, and the rounding of a double to it.
-/

namespace Assay

/-- A binary floating-point grid: significand bits, the exponent of the least step in units of
2⁻¹⁰⁷⁴, and the exponent of the first magnitude that is too large. -/
structure Grid where
  precision : Nat
  leastStep : Nat
  top : Nat
deriving DecidableEq, Repr

namespace Grid

/-- The grid of all doubles. -/
def double : Grid := ⟨53, 0, 2098⟩

/-- Single precision. -/
def single : Grid := ⟨24, 925, 1202⟩

/-- Half precision. -/
def half : Grid := ⟨11, 1050, 1090⟩

/-- Extended precision, as far as its steps are whole units. -/
def extended : Grid := ⟨64, 0, 17458⟩

/-- The exponent of the step at a magnitude given in units. -/
def stepAt (g : Grid) (units : Nat) : Nat := max g.leastStep (Nat.log2 units + 1 - g.precision)

/-- The next grid point above a positive grid point. -/
def above (g : Grid) (units : Nat) : Nat := units + (1 <<< g.stepAt units)

/-- The next grid point below a positive grid point; below a power of two the step is halved. -/
def below (g : Grid) (units : Nat) : Nat :=
  let s := g.stepAt units
  if units = 1 <<< Nat.log2 units ∧ g.leastStep < s then units - (1 <<< (s - 1))
  else units - (1 <<< s)

/-- Whether the significand of a grid point is even. -/
def isEven (g : Grid) (units : Nat) : Bool := (units >>> g.stepAt units) % 2 = 0

/-- The grid point nearest to a magnitude in units; ties go to the even significand. -/
def round (g : Grid) (units : Nat) : Nat :=
  let s := g.stepAt units
  roundHalfEven units (1 <<< s) <<< s

end Grid

namespace Double

/-- The nearest number on a grid; past the top of the grid it is infinite. -/
def onGrid (g : Grid) : Double → Double
  | .finite s m =>
    let u := g.round (unitsOfRank m)
    if u < 1 <<< g.top then ofUnits s u 1 else .infinite s
  | x => x

end Double

end Assay
