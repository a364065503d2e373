import Assay.Proofs.Number.Shortest
import Mathlib.Algebra.Order.Field.Power
import Mathlib.Tactic.Positivity

/-!
# Reading a decimal gives the nearest double

A decimal that rounds to a positive finite rank is read as the double of that rank, with either sign.
The reader has two shortcuts for decimals that are far out of range; such decimals round to no finite
rank.

* `ofUnits_of_near` — rounding a quotient of units;
* `ofDecimal_of_near` — reading a decimal.
-/

namespace Assay.Double

open Decimal

theorem ofUnits_of_near {n d : Nat} (hd : 0 < d) {v : Rat} (hv : v * d = n) {r : Nat}
    (hn : Near v r) (h : r < 2047 * binade) (negative : Bool) :
    ofUnits negative n d = .finite negative ⟨r, h⟩ := by
  have hr : rankNear n d = r := (rankNear_near hd hv).unique hn
  subst hr
  rw [ofUnits, dif_pos h]

/-- A magnitude that rounds to a positive rank is at least half a unit. -/
theorem Near.one_le {v : Rat} {r : Nat} (hn : Near v r) (hr : 0 < r) : 1 ≤ 2 * v := by
  have : 1 ≤ unitsOfRank (r - 1) + unitsOfRank r := by
    have := unitsOfRank_strictMono hr
    omega
  exact le_trans (by exact_mod_cast this) hn.1

/-- A magnitude that rounds to a finite rank is not past the last binade. -/
theorem Near.le_top {v : Rat} {r : Nat} (hn : Near v r) (h : r < 2047 * binade) :
    v ≤ 2 ^ 53 * 2 ^ 2045 := by
  have hr : unitsOfRank r ≤ 2 ^ 53 * 2 ^ 2045 := unitsOfRank_top ▸ unitsOfRank_mono (Nat.le_of_lt h)
  have hs : unitsOfRank (r + 1) ≤ 2 ^ 53 * 2 ^ 2045 := unitsOfRank_top ▸ unitsOfRank_mono h
  have hr' : (unitsOfRank r : Rat) ≤ 2 ^ 53 * 2 ^ 2045 := by exact_mod_cast hr
  have hs' : (unitsOfRank (r + 1) : Rat) ≤ 2 ^ 53 * 2 ^ 2045 := by exact_mod_cast hs
  have high := hn.2.1
  rw [Nat.cast_add] at high
  generalize (2 : Rat) ^ 53 * 2 ^ 2045 = top at *
  linarith

theorem cast_one_shiftLeft (n : Nat) : ((1 <<< n : Nat) : Rat) = 2 ^ n := by
  rw [Nat.one_shiftLeft]
  push_cast
  rfl

/-- The value 1 in units. -/
theorem oneUnits_eq : (oneUnits : Rat) = 2 ^ 1074 := cast_one_shiftLeft 1074

theorem two_pow_le_ten_pow_place (n : Nat) : (2 : Rat) ^ (3 * n) ≤ 10 ^ n := by
  rw [pow_mul]
  exact pow_le_pow_left₀ (by norm_num) (by norm_num) n

/-- A decimal whose first digit stands more than 400 places behind the point is less than half a
unit. -/
theorem units_lt_of_small {m : Nat} {e : Int} (h : e + (Nat.log2 m + 1 : Nat) < -400) :
    2 * units ⟨m, e⟩ < 1 := by
  have digits : (m : Rat) < 10 ^ ((Nat.log2 m + 1 : Nat) : Int) := by
    rw [zpow_natCast]
    have : m < 10 ^ (Nat.log2 m + 1) :=
      Nat.lt_of_lt_of_le Nat.lt_log2_self (Nat.pow_le_pow_left (by decide) _)
    exact_mod_cast this
  have place : (m : Rat) * 10 ^ e < 10 ^ (-((401 : Nat) : Int)) := by
    calc (m : Rat) * 10 ^ e < 10 ^ ((Nat.log2 m + 1 : Nat) : Int) * 10 ^ e :=
          mul_lt_mul_of_pos_right digits (zpow_pos (by norm_num) e)
      _ = 10 ^ (((Nat.log2 m + 1 : Nat) : Int) + e) := (zpow_add₀ (by norm_num) _ _).symm
      _ ≤ 10 ^ (-((401 : Nat) : Int)) := zpow_le_zpow_right₀ (by norm_num) (by omega)
  have half : (2 : Rat) * 2 ^ 1074 ≤ 10 ^ 401 := by
    calc (2 : Rat) * 2 ^ 1074 = 2 ^ (1074 + 1) := (pow_succ' 2 1074).symm
      _ ≤ 2 ^ (3 * 401) := pow_le_pow_right₀ one_le_two (by omega)
      _ ≤ 10 ^ 401 := two_pow_le_ten_pow_place 401
  calc 2 * units ⟨m, e⟩ = m * 10 ^ e * (2 * 2 ^ 1074) := by
        rw [units, oneUnits_eq, mul_left_comm]
    _ < 10 ^ (-((401 : Nat) : Int)) * (2 * 2 ^ 1074) := mul_lt_mul_of_pos_right place (by positivity)
    _ ≤ 10 ^ (-((401 : Nat) : Int)) * 10 ^ 401 := mul_le_mul_of_nonneg_left half (by positivity)
    _ = 1 := ten_zpow_neg_mul_pow 401

/-- A decimal with more than 400 zeros before the point is past the last binade. -/
theorem lt_units_of_large {m : Nat} {e : Int} (hm : m ≠ 0) (h : 400 < e) :
    2 ^ 53 * 2 ^ 2045 < units ⟨m, e⟩ := by
  have digits : (1 : Rat) ≤ m := by exact_mod_cast Nat.pos_of_ne_zero hm
  have place : (10 : Rat) ^ 401 ≤ 10 ^ e := by
    rw [← zpow_natCast]
    exact zpow_le_zpow_right₀ (by norm_num) (by omega)
  calc (2 : Rat) ^ 53 * 2 ^ 2045 = 2 ^ (53 + 2045) := (pow_add 2 53 2045).symm
    _ < 2 ^ (3 * 401 + 1074) := pow_lt_pow_right₀ one_lt_two (by omega)
    _ = 2 ^ (3 * 401) * 2 ^ 1074 := pow_add 2 (3 * 401) 1074
    _ ≤ 10 ^ 401 * 2 ^ 1074 := mul_le_mul_of_nonneg_right (two_pow_le_ten_pow_place 401) (by positivity)
    _ ≤ 10 ^ e * 2 ^ 1074 := mul_le_mul_of_nonneg_right place (by positivity)
    _ ≤ m * 10 ^ e * 2 ^ 1074 :=
        mul_le_mul_of_nonneg_right (le_mul_of_one_le_left (by positivity) digits) (by positivity)
    _ = units ⟨m, e⟩ := by rw [units, oneUnits_eq]

/-- **A decimal that rounds to a positive finite rank is read as the double of that rank.** -/
theorem ofDecimal_of_near {m : Nat} {e : Int} {r : Nat} (hn : Near (units ⟨m, e⟩) r) (hr : 0 < r)
    (h : r < 2047 * binade) (negative : Bool) : ofDecimal negative m e = .finite negative ⟨r, h⟩ := by
  have low := hn.one_le hr
  have hm : m ≠ 0 := by
    rintro rfl
    rw [units] at low
    simp only [Nat.cast_zero, zero_mul, mul_zero] at low
    exact absurd low (by norm_num)
  rw [ofDecimal, if_neg hm]
  dsimp only
  rw [if_neg, if_neg]
  · split
    · rename_i he
      obtain ⟨k, rfl⟩ := Int.eq_ofNat_of_zero_le he
      apply ofUnits_of_near Nat.one_pos _ hn h
      rw [units, zpow_natCast, Int.toNat_natCast, show Nat.pow 10 k = 10 ^ k from rfl]
      push_cast
      ring
    · rename_i he
      obtain ⟨k, rfl⟩ : ∃ k : Nat, e = -(k : Int) := ⟨(-e).toNat, by omega⟩
      rw [Int.neg_neg, Int.toNat_natCast]
      apply ofUnits_of_near (Nat.pow_pos (by decide)) _ hn h
      rw [units]
      push_cast
      rw [mul_right_comm, mul_assoc (m : Rat), ten_zpow_neg_mul_pow, mul_one]
  · intro large
    exact absurd (lt_of_lt_of_le (lt_units_of_large hm large) (hn.le_top h)) (lt_irrefl _)
  · rintro ⟨-, small⟩
    exact absurd (lt_of_lt_of_le (units_lt_of_small small) low) (lt_irrefl _)

/-- A decimal of the same value as the shortest one of a magnitude is read as that magnitude. -/
theorem ofDecimal_of_shortest {m : Nat} {e : Int} {r : Nat} (hr : 0 < r) (h : r < 2047 * binade)
    (hv : units ⟨m, e⟩ = (shortest .double (unitsOfRank r)).units) (negative : Bool) :
    ofDecimal negative m e = .finite negative ⟨r, h⟩ := by
  apply ofDecimal_of_near _ hr h
  rw [hv]
  exact (shortest_near hr h).2

end Assay.Double
