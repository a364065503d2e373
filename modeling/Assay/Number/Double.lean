import Assay.Number.Rounding

/-!
# Double-precision numbers on their exact grid

A finite double is a sign and the rank of its magnitude among all finite magnitudes, counted from
zero. Every finite magnitude is a whole number of units of 2⁻¹⁰⁷⁴, and rank order is magnitude
order, so comparison and rounding are exact arithmetic on natural numbers. The main statements
say that the order of units is the order of ranks and what the value of a double is as a rational.
-/

namespace Assay

/-- The number of magnitudes in a binade, 2⁵². -/
abbrev binade : Nat := 4503599627370496

/-- A magnitude of a finite double, by rank: zero is 0 and the least positive one is 1. -/
abbrev Magnitude := Fin (2047 * binade)

/-- A double-precision number: not a number, an infinity, or a signed finite magnitude. What is not a
number equals nothing, so that two of them are told apart only as objects, by a mark. -/
inductive Double where
  | nan (mark : Nat)
  | infinite (negative : Bool)
  | finite (negative : Bool) (magnitude : Magnitude)
deriving DecidableEq, Repr

namespace Double

/-! ### Magnitudes in units of 2⁻¹⁰⁷⁴ -/

/-- The number of units in the value 1. -/
def oneUnits : Nat := 1 <<< 1074

/-- The magnitude of a rank in units: the first two binades have steps of one unit, and each later
binade doubles the step. -/
def unitsOfRank (rank : Nat) : Nat :=
  if rank < binade then rank else (rank % binade + binade) <<< (rank / binade - 1)

/-- The rank nearest to `n / d` units; ties go to the even rank. -/
def rankNear (n d : Nat) : Nat :=
  let step := Nat.log2 (n / d) - 52
  step * binade + roundHalfEven n (d <<< step)

/-- The double nearest to `n / d` units of 2⁻¹⁰⁷⁴ with the given sign; a magnitude past the last
binade is infinite. -/
def ofUnits (negative : Bool) (n d : Nat) : Double :=
  if h : rankNear n d < 2047 * binade then .finite negative ⟨rankNear n d, h⟩ else .infinite negative

/-- The zero of a sign. -/
def signedZero (negative : Bool) : Double := .finite negative ⟨0, by decide⟩

/-- Positive zero. -/
def zero : Double := signedZero false

/-- The double nearest to an integer; integers past the last binade are infinite. -/
def ofInt (i : Int) : Double := ofUnits (i < 0) (i.natAbs * oneUnits) 1

/-- The double nearest to `digits · 10 ^ exponent`. Far outside the range of doubles only the
position of the leading digit is looked at, so that no huge power is ever formed. -/
def ofDecimal (negative : Bool) (digits : Nat) (exponent : Int) : Double :=
  if digits = 0 then signedZero negative
  else
    let leading : Int := exponent + (Nat.log2 digits / 3 : Nat)
    if leading < -400 ∧ exponent + (Nat.log2 digits + 1 : Nat) < -400 then signedZero negative
    else if exponent > 400 then .infinite negative
    else if 0 ≤ exponent then ofUnits negative (digits * Nat.pow 10 exponent.toNat * oneUnits) 1
    else ofUnits negative (digits * oneUnits) (Nat.pow 10 (-exponent).toNat)

/-! ### Views -/

/-- The value in units of 2⁻¹⁰⁷⁴, for a finite double. -/
def units? : Double → Option Int
  | .finite true m => some (-(unitsOfRank m : Int))
  | .finite false m => some (unitsOfRank m)
  | _ => none

/-- The exact value of a finite double as a rational. -/
def toRat? (x : Double) : Option Rat := x.units?.map fun u => mkRat u oneUnits

/-- Neither an infinity nor not a number. -/
def isFinite : Double → Bool
  | .finite _ _ => true
  | _ => false

/-- The double without its mark: as it is written. -/
def unmarked : Double → Double
  | .nan _ => .nan 0
  | x => x

theorem unmarked_of_isFinite {x : Double} (h : x.isFinite = true) : x.unmarked = x := by
  cases x <;> trivial

/-- The integer that a finite double is, if it is one. -/
def toInt? (x : Double) : Option Int :=
  match x.units? with
  | some u => if u % oneUnits = 0 then some (u / oneUnits) else none
  | none => none

/-! ### Order -/

/-- Numeric order: not-a-number is below and above nothing. -/
def le (x y : Double) : Bool :=
  match x, y with
  | .nan _, _ => false
  | _, .nan _ => false
  | .infinite true, _ => true
  | _, .infinite false => true
  | .infinite false, _ => false
  | _, .infinite true => false
  | .finite s m, .finite t n =>
    (if s then -(unitsOfRank m : Int) else unitsOfRank m) ≤
      (if t then -(unitsOfRank n : Int) else unitsOfRank n)

/-! ### Small laws -/

theorem unitsOfRank_zero : unitsOfRank 0 = 0 := rfl

/-- A rank is moved by one step to a larger magnitude. -/
theorem unitsOfRank_lt_succ (rank : Nat) : unitsOfRank rank < unitsOfRank (rank + 1) := by
  simp only [unitsOfRank, binade, Nat.shiftLeft_eq]
  have hpow : ∀ k, 0 < 2 ^ k := fun k => Nat.two_pow_pos k
  by_cases h1 : rank < 4503599627370496
  · by_cases h2 : rank + 1 < 4503599627370496
    · rw [if_pos h1, if_pos h2]
      exact Nat.lt_succ_self rank
    · have hr : rank + 1 = 4503599627370496 := by omega
      rw [if_pos h1, if_neg h2, hr]
      omega
  · have h2 : ¬ rank + 1 < 4503599627370496 := by omega
    simp only [h1, h2, if_false]
    by_cases hc : rank % 4503599627370496 + 1 = 4503599627370496
    · have hm : (rank + 1) % 4503599627370496 = 0 := by omega
      have he : (rank + 1) / 4503599627370496 - 1 = (rank / 4503599627370496 - 1) + 1 := by omega
      rw [hm, he, Nat.pow_succ]
      have hlt : rank % 4503599627370496 + 4503599627370496 < 9007199254740992 := by omega
      have hq := Nat.mul_lt_mul_of_pos_right hlt (hpow (rank / 4503599627370496 - 1))
      omega
    · have hd : (rank + 1) / 4503599627370496 = rank / 4503599627370496 := by omega
      have hm : (rank + 1) % 4503599627370496 = rank % 4503599627370496 + 1 := by omega
      rw [hd, hm]
      exact Nat.mul_lt_mul_of_pos_right (by omega) (hpow _)

/-- Magnitude order is rank order. -/
theorem unitsOfRank_strictMono {a b : Nat} (h : a < b) : unitsOfRank a < unitsOfRank b := by
  induction h with
  | refl => exact unitsOfRank_lt_succ a
  | step _ ih => exact Nat.lt_trans ih (unitsOfRank_lt_succ _)

/-- Distinct ranks have distinct magnitudes. -/
theorem unitsOfRank_injective {a b : Nat} (h : unitsOfRank a = unitsOfRank b) : a = b := by
  rcases Nat.lt_trichotomy a b with hlt | heq | hgt
  · exact absurd h (Nat.ne_of_lt (unitsOfRank_strictMono hlt))
  · exact heq
  · exact absurd h.symm (Nat.ne_of_lt (unitsOfRank_strictMono hgt))

theorem unitsOfRank_eq_zero_iff {a : Nat} : unitsOfRank a = 0 ↔ a = 0 :=
  ⟨fun h => unitsOfRank_injective (h.trans unitsOfRank_zero.symm), fun h => h ▸ unitsOfRank_zero⟩

end Double

end Assay
