import Assay.Number.Double
import Mathlib.Data.Rat.Cast.Order
import Mathlib.Tactic.Linarith
import Mathlib.Tactic.Ring

/-!
# Rounding to the nearest double

Every rank is a step and a significand: the step is the exponent of the unit in the last place, and a
significand at a positive step fills the last binade that is open to it.

* `unitsOfRank_step` — the magnitude of a step and a significand;
* `Near` — a magnitude rounds to a rank: it lies between the midpoints with the neighbours, and a
  midpoint itself belongs to the even rank;
* `Near.le` and `Near.unique` — the larger of two magnitudes rounds to no lower rank, and one magnitude
  to one rank at most;
* `rankNear_near` — the rank that rounding finds is the one.
-/

namespace Assay.Double

/-! ### Steps and significands -/

/-- The magnitude of a rank that is given by its step and its significand.  The significand may be
one past the last, which is the first of the next step. -/
theorem unitsOfRank_step {k c : Nat} (hc : c ≤ 2 * binade) (hk : k = 0 ∨ binade ≤ c) :
    unitsOfRank (k * binade + c) = c * 2 ^ k := by
  simp only [unitsOfRank, binade, Nat.shiftLeft_eq] at *
  by_cases hsmall : k * 4503599627370496 + c < 4503599627370496
  · have hk0 : k = 0 := by omega
    subst hk0
    rw [if_pos hsmall]
    omega
  · rw [if_neg hsmall]
    by_cases hlast : c = 9007199254740992
    · subst hlast
      have hm : (k * 4503599627370496 + 9007199254740992) % 4503599627370496 = 0 := by omega
      have hd : (k * 4503599627370496 + 9007199254740992) / 4503599627370496 - 1 = k + 1 := by omega
      rw [hm, hd, Nat.pow_succ]
      omega
    · have hm : (k * 4503599627370496 + c) % 4503599627370496 + 4503599627370496 = c := by omega
      have hd : (k * 4503599627370496 + c) / 4503599627370496 - 1 = k := by omega
      rw [hm, hd]

/-- Every positive rank has a step and a positive significand. -/
theorem exists_step {r : Nat} (hr : 0 < r) :
    ∃ k c, r = k * binade + c ∧ 0 < c ∧ c < 2 * binade ∧ (k = 0 ∨ binade ≤ c) := by
  refine ⟨r / binade - 1, r - (r / binade - 1) * binade, ?_, ?_, ?_, ?_⟩ <;>
    simp only [binade] <;> omega

/-- The next magnitude is one unit of the step above. -/
theorem unitsOfRank_succ {k c : Nat} (hc : c < 2 * binade) (hk : k = 0 ∨ binade ≤ c) :
    unitsOfRank (k * binade + c + 1) = unitsOfRank (k * binade + c) + 2 ^ k := by
  rw [unitsOfRank_step (Nat.le_of_lt hc) hk, Nat.add_assoc, unitsOfRank_step (by omega) (by omega)]
  ring

/-- The magnitude before one that is not the first of its step is one unit of the step below. -/
theorem unitsOfRank_pred {k c : Nat} (hc : c ≤ 2 * binade) (hk : k = 0 ∧ 0 < c ∨ binade < c) :
    unitsOfRank (k * binade + c - 1) + 2 ^ k = unitsOfRank (k * binade + c) := by
  obtain ⟨b, rfl⟩ : ∃ b, c = b + 1 := ⟨c - 1, by omega⟩
  have := unitsOfRank_succ (k := k) (c := b) (by omega) (by omega)
  rw [← Nat.add_assoc, Nat.add_sub_cancel, this]

/-- The magnitude before the first one of a step is half a unit of the step below. -/
theorem unitsOfRank_pred_first (k : Nat) :
    unitsOfRank ((k + 1) * binade + binade - 1) + 2 ^ k = unitsOfRank ((k + 1) * binade + binade) := by
  have hr : (k + 1) * binade + binade = k * binade + 2 * binade := by ring
  rw [hr]
  exact unitsOfRank_pred (Nat.le_refl _) (Or.inr (by decide))

/-- Above any magnitude, a first one of a step included, the next one is at least a unit away. -/
theorem unitsOfRank_add_le_succ {k c : Nat} (hc : c ≤ 2 * binade) (hk : k = 0 ∨ binade ≤ c) :
    unitsOfRank (k * binade + c) + 2 ^ k ≤ unitsOfRank (k * binade + c + 1) := by
  rcases Nat.lt_or_eq_of_le hc with hlt | rfl
  · exact Nat.le_of_eq (unitsOfRank_succ hlt hk).symm
  · have hr : k * binade + 2 * binade = (k + 1) * binade + binade := by ring
    rw [hr, unitsOfRank_succ (by decide) (Or.inr (Nat.le_refl _)), Nat.pow_succ]
    omega

/-- Magnitudes do not fall with their ranks. -/
theorem unitsOfRank_mono {a b : Nat} (h : a ≤ b) : unitsOfRank a ≤ unitsOfRank b := by
  rcases Nat.lt_or_eq_of_le h with hlt | rfl
  · exact Nat.le_of_lt (unitsOfRank_strictMono hlt)
  · exact Nat.le_refl _

/-- The least magnitude that is too large. -/
theorem unitsOfRank_top : unitsOfRank (2047 * binade) = 2 ^ 53 * 2 ^ 2045 := by
  have binades : 2 ^ 53 = 2 * binade := rfl
  rw [show 2047 * binade = 2045 * binade + 2 * binade from rfl, binades]
  exact unitsOfRank_step (Nat.le_refl _) (Or.inr (by decide))

/-! ### The rank that a magnitude rounds to -/

/-- A magnitude in units rounds to a rank.  Below the rank zero there is no neighbour. -/
def Near (v : Rat) (r : Nat) : Prop :=
  (unitsOfRank (r - 1) + unitsOfRank r : Nat) ≤ 2 * v ∧ 2 * v ≤ (unitsOfRank r + unitsOfRank (r + 1) : Nat) ∧
    (r % 2 = 1 → (unitsOfRank (r - 1) + unitsOfRank r : Nat) < 2 * v ∧
      2 * v < (unitsOfRank r + unitsOfRank (r + 1) : Nat))

/-- **The larger of two magnitudes rounds to no lower rank.** -/
theorem Near.le {v w : Rat} {r s : Nat} (hvw : v ≤ w) (hr : Near v r) (hs : Near w s) : r ≤ s := by
  by_contra h
  have below : unitsOfRank s ≤ unitsOfRank (r - 1) := unitsOfRank_mono (by omega)
  have above : unitsOfRank (s + 1) ≤ unitsOfRank r := unitsOfRank_mono (by omega)
  have twice : 2 * v ≤ 2 * w := by linarith
  have between : unitsOfRank (r - 1) + unitsOfRank r ≤ unitsOfRank s + unitsOfRank (s + 1) := by
    have := (hr.1.trans twice).trans hs.2.1
    exact_mod_cast this
  have next : r = s + 1 := (unitsOfRank_injective (by omega)).symm
  -- Two neighbours are not both even, so the midpoint belongs to one of them only.
  rcases Nat.mod_two_eq_zero_or_one s with he | ho
  · have := ((hr.2.2 (by omega)).1.trans_le twice).trans_le hs.2.1
    have : unitsOfRank (r - 1) + unitsOfRank r < unitsOfRank s + unitsOfRank (s + 1) := by
      exact_mod_cast this
    omega
  · have := (hr.1.trans twice).trans_lt (hs.2.2 ho).2
    have : unitsOfRank (r - 1) + unitsOfRank r < unitsOfRank s + unitsOfRank (s + 1) := by
      exact_mod_cast this
    omega

/-- **A magnitude rounds to one rank.** -/
theorem Near.unique {v : Rat} {r s : Nat} (hr : Near v r) (hs : Near v s) : r = s :=
  Nat.le_antisymm (hr.le (le_refl v) hs) (hs.le (le_refl v) hr)

/-! ### What rounding finds -/

/-- Half a unit from the rounded quotient it is even. -/
theorem roundHalfEven_even {n d : Nat} (hd : 0 < d)
    (h : 2 * (roundHalfEven n d * d) = 2 * n + d ∨ 2 * n = 2 * (roundHalfEven n d * d) + d) :
    roundHalfEven n d % 2 = 0 := by
  apply roundHalfEven_even_of_tie
  have split : d * (n / d) + n % d = n := Nat.div_add_mod n d
  have small : n % d < d := Nat.mod_lt n hd
  have same : n / d * d = d * (n / d) := Nat.mul_comm _ _
  have next : (n / d + 1) * d = d * (n / d) + d := by rw [Nat.add_mul, same, Nat.one_mul]
  rcases roundHalfEven_eq_or n d with hr | hr
  · rw [hr, same] at h
    omega
  · rw [hr, next] at h
    omega

/-- The step of a quotient, and where its significand lies. -/
theorem quotient_bounds {n d : Nat} (hd : 0 < d) :
    n < d * 2 ^ (Nat.log2 (n / d) - 52) * (2 * binade) ∧
      (Nat.log2 (n / d) - 52 = 0 ∨ d * 2 ^ (Nat.log2 (n / d) - 52) * binade ≤ n) := by
  have split : d * (n / d) + n % d = n := Nat.div_add_mod n d
  have small : n % d < d := Nat.mod_lt n hd
  constructor
  · have top : n / d + 1 ≤ 2 ^ (Nat.log2 (n / d) - 52) * (2 * binade) := by
      calc n / d + 1 ≤ 2 ^ (Nat.log2 (n / d) + 1) := Nat.lt_log2_self
        _ ≤ 2 ^ (Nat.log2 (n / d) - 52 + 53) := Nat.pow_le_pow_right (by decide) (by omega)
        _ = 2 ^ (Nat.log2 (n / d) - 52) * (2 * binade) := Nat.pow_add _ _ 53
    have := Nat.mul_le_mul_left d top
    rw [Nat.mul_assoc]
    rw [Nat.mul_add] at this
    omega
  · rcases Nat.eq_zero_or_pos (Nat.log2 (n / d) - 52) with h | h
    · exact Or.inl h
    · right
      have hq : n / d ≠ 0 := by
        intro h0
        rw [h0] at h
        exact absurd h (by decide)
      have bottom : 2 ^ (Nat.log2 (n / d) - 52) * binade ≤ n / d := by
        calc 2 ^ (Nat.log2 (n / d) - 52) * binade = 2 ^ (Nat.log2 (n / d) - 52 + 52) :=
              (Nat.pow_add _ _ 52).symm
          _ = 2 ^ Nat.log2 (n / d) := by rw [Nat.sub_add_cancel (by omega)]
          _ ≤ n / d := Nat.log2_self_le hq
      have := Nat.mul_le_mul_left d bottom
      rw [Nat.mul_assoc]
      omega

/-- A bound on a quotient, in whole numbers. -/
theorem near_iff {v : Rat} {r n d : Nat} (hd : 0 < d) (hv : v * d = n) :
    Near v r ↔ (unitsOfRank (r - 1) + unitsOfRank r) * d ≤ 2 * n ∧
      2 * n ≤ (unitsOfRank r + unitsOfRank (r + 1)) * d ∧
        (r % 2 = 1 → (unitsOfRank (r - 1) + unitsOfRank r) * d < 2 * n ∧
          2 * n < (unitsOfRank r + unitsOfRank (r + 1)) * d) := by
  have hd' : (0 : Rat) < d := by exact_mod_cast hd
  have hn : 2 * v * d = ((2 * n : Nat) : Rat) := by
    push_cast
    rw [mul_assoc, hv]
  have low (a : Nat) : (a : Rat) ≤ 2 * v ↔ a * d ≤ 2 * n := by
    rw [← mul_le_mul_iff_left₀ hd', hn]
    exact_mod_cast Iff.rfl
  have high (a : Nat) : 2 * v ≤ (a : Rat) ↔ 2 * n ≤ a * d := by
    rw [← mul_le_mul_iff_left₀ hd', hn]
    exact_mod_cast Iff.rfl
  rw [Near, low, high, ← not_le, ← not_le, low, high, not_le, not_le]

/-- **The rank that rounding finds is the one that the quotient rounds to.** -/
theorem rankNear_near {n d : Nat} (hd : 0 < d) {v : Rat} (hv : v * d = n) : Near v (rankNear n d) := by
  obtain ⟨htop, hbottom⟩ := quotient_bounds (n := n) hd
  rw [near_iff hd hv, rankNear, Nat.shiftLeft_eq]
  generalize Nat.log2 (n / d) - 52 = k at *
  have hD : 0 < d * 2 ^ k := Nat.mul_pos hd (Nat.two_pow_pos k)
  obtain ⟨hhigh, hlow⟩ := roundHalfEven_near n hD
  have heven := roundHalfEven_even (n := n) hD
  have hor := roundHalfEven_eq_or n (d * 2 ^ k)
  have hc : roundHalfEven n (d * 2 ^ k) ≤ 2 * binade := by
    have : n / (d * 2 ^ k) < 2 * binade := Nat.div_lt_of_lt_mul htop
    omega
  have hk : k = 0 ∨ binade ≤ roundHalfEven n (d * 2 ^ k) := by
    rcases hbottom with h | h
    · exact Or.inl h
    · have : binade ≤ n / (d * 2 ^ k) := (Nat.le_div_iff_mul_le hD).2 (by rwa [Nat.mul_comm] at h)
      omega
  generalize roundHalfEven n (d * 2 ^ k) = c at *
  have parity : (k * binade + c) % 2 = c % 2 := by
    simp only [binade]
    omega
  -- From here on everything is measured in the unit of the step.
  have here : unitsOfRank (k * binade + c) * d = c * (d * 2 ^ k) := by
    rw [unitsOfRank_step hc hk]
    ring
  have above : c * (d * 2 ^ k) + d * 2 ^ k ≤ unitsOfRank (k * binade + c + 1) * d := by
    have := Nat.mul_le_mul_right d (unitsOfRank_add_le_succ hc hk)
    rw [Nat.add_mul, here, Nat.mul_comm (2 ^ k) d] at this
    exact this
  rw [Nat.add_mul, Nat.add_mul, here, parity]
  have first : c = 0 ∧ k = 0 ∨ (k = 0 ∧ 0 < c ∨ binade < c) ∨ k ≠ 0 ∧ c = binade := by omega
  rcases first with ⟨rfl, rfl⟩ | h | ⟨h0, rfl⟩
  · have none : unitsOfRank (0 * binade + 0 - 1) = 0 := rfl
    rw [none]
    omega
  · have below : unitsOfRank (k * binade + c - 1) * d + d * 2 ^ k = c * (d * 2 ^ k) := by
      rw [← here, ← unitsOfRank_pred hc h]
      ring
    omega
  · have fills : d * 2 ^ k * binade ≤ n := hbottom.resolve_left h0
    have below : unitsOfRank (k * binade + binade - 1) * d < unitsOfRank (k * binade + binade) * d :=
      Nat.mul_lt_mul_of_pos_right (unitsOfRank_strictMono (by simp only [binade]; omega)) hd
    rw [here] at below
    rw [Nat.mul_comm] at fills
    omega

end Assay.Double
