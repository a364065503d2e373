import Assay.Number.Shortest
import Assay.Proofs.Number.Nearest

/-!
# The shortest decimal rounds back

The search for the fewest digits looks at decimals between the midpoints around a magnitude, so that
whatever it finds rounds to that magnitude.  It does find something: on the last decimal grid that it
looks at, a step is shorter than the distance to either midpoint.

* `around_double` — the interval around a magnitude of a rank;
* `near_of_holds` — a decimal in the interval rounds to the rank;
* `search_hits` — the search does not run dry;
* `shortest_near` — the shortest decimal of a rank rounds to the rank.
-/

namespace Assay

open Double

/-- The value of a decimal in units of 2⁻¹⁰⁷⁴. -/
def Decimal.units (d : Decimal) : Rat := d.digits * 10 ^ d.exponent * oneUnits

namespace Decimal

/-! ### The interval around a magnitude -/

/-- A significand that fills a binade has 53 bits. -/
theorem log2_scaled {c : Nat} (k : Nat) (hc : c < 2 * binade) (hk : binade ≤ c) :
    Nat.log2 (c * 2 ^ k) = 52 + k := by
  have hpos : 0 < c * 2 ^ k := Nat.mul_pos (Nat.lt_of_lt_of_le (by decide) hk) (Nat.two_pow_pos k)
  rw [Nat.log2_eq_iff (Nat.ne_of_gt hpos), show 52 + k + 1 = 53 + k by omega, Nat.pow_add, Nat.pow_add]
  exact ⟨Nat.mul_le_mul_right _ hk, Nat.mul_lt_mul_of_pos_right hc (Nat.two_pow_pos k)⟩

/-- The exponent of the last place of a magnitude is its step. -/
theorem stepAt_unitsOfRank {k c : Nat} (h0 : 0 < c) (hc : c < 2 * binade) (hk : k = 0 ∨ binade ≤ c) :
    Grid.double.stepAt (unitsOfRank (k * binade + c)) = k := by
  rw [unitsOfRank_step (Nat.le_of_lt hc) hk]
  show max 0 (Nat.log2 (c * 2 ^ k) + 1 - 53) = k
  rcases hk with rfl | hk
  · rw [Nat.pow_zero, Nat.mul_one]
    have : Nat.log2 c < 53 := (Nat.log2_lt (Nat.ne_of_gt h0)).2 hc
    omega
  · rw [log2_scaled k hc hk]
    omega

/-- A first magnitude of a step is a power of two, and no other one is. -/
theorem unitsOfRank_eq_pow_iff {k c : Nat} (hc : c < 2 * binade) (hk : binade ≤ c) :
    unitsOfRank (k * binade + c) = 1 <<< Nat.log2 (unitsOfRank (k * binade + c)) ↔ c = binade := by
  rw [unitsOfRank_step (Nat.le_of_lt hc) (Or.inr hk), Nat.one_shiftLeft, log2_scaled k hc hk,
    Nat.pow_add]
  exact Nat.mul_left_inj (Nat.ne_of_gt (Nat.two_pow_pos k))

theorem below_double {r : Nat} (hr : 0 < r) :
    Grid.double.below (unitsOfRank r) = unitsOfRank (r - 1) := by
  obtain ⟨k, c, rfl, h0, hc, hk⟩ := exists_step hr
  rw [Grid.below, stepAt_unitsOfRank h0 hc hk]
  split
  · rename_i h
    obtain ⟨hpow, hpos⟩ := h
    have hk' : binade ≤ c := hk.resolve_left (Nat.ne_of_gt hpos)
    obtain rfl := (unitsOfRank_eq_pow_iff hc hk').1 hpow
    obtain ⟨j, rfl⟩ : ∃ j, k = j + 1 := ⟨k - 1, by simp only [Grid.double] at hpos; omega⟩
    have := unitsOfRank_pred_first j
    rw [Nat.one_shiftLeft, Nat.add_sub_cancel]
    omega
  · rename_i h
    have inner : k = 0 ∧ 0 < c ∨ binade < c := by
      rcases hk with rfl | hk
      · exact Or.inl ⟨rfl, h0⟩
      · rcases Nat.eq_zero_or_pos k with rfl | hpos
        · exact Or.inl ⟨rfl, h0⟩
        · right
          have : c ≠ binade := fun e => h ⟨(unitsOfRank_eq_pow_iff hc hk).2 e, hpos⟩
          omega
    have := unitsOfRank_pred (Nat.le_of_lt hc) inner
    rw [Nat.one_shiftLeft]
    omega

theorem above_double {r : Nat} (hr : 0 < r) :
    Grid.double.above (unitsOfRank r) = unitsOfRank (r + 1) := by
  obtain ⟨k, c, rfl, h0, hc, hk⟩ := exists_step hr
  rw [Grid.above, stepAt_unitsOfRank h0 hc hk, unitsOfRank_succ hc hk, Nat.one_shiftLeft]

theorem isEven_double {r : Nat} (hr : 0 < r) :
    Grid.double.isEven (unitsOfRank r) = decide (r % 2 = 0) := by
  obtain ⟨k, c, rfl, h0, hc, hk⟩ := exists_step hr
  have parity : (k * binade + c) % 2 = c % 2 := by
    simp only [binade]
    omega
  rw [Grid.isEven, stepAt_unitsOfRank h0 hc hk, unitsOfRank_step (Nat.le_of_lt hc) hk,
    Nat.shiftRight_eq_div_pow, Nat.mul_div_cancel _ (Nat.two_pow_pos k), parity]

/-- The interval around a magnitude reaches to the midpoints with its neighbours. -/
theorem around_double {r : Nat} (hr : 0 < r) :
    Interval.around .double (unitsOfRank r) =
      ⟨unitsOfRank r + unitsOfRank (r - 1), 2 * unitsOfRank r, unitsOfRank r + unitsOfRank (r + 1),
        decide (r % 2 = 0)⟩ := by
  rw [Interval.around, below_double hr, above_double hr, isEven_double hr]

/-! ### Decimals in the interval -/

theorem oneUnits_pos : 0 < oneUnits := by
  rw [oneUnits, Nat.one_shiftLeft]
  exact Nat.two_pow_pos 1074

/-- A shift by one place more than the unit is twice the unit. -/
theorem shiftLeft_eq_two_mul (n : Nat) : n <<< 1075 = 2 * (n * oneUnits) := by
  rw [Nat.shiftLeft_succ, Nat.shiftLeft_eq n, oneUnits, Nat.one_shiftLeft]

theorem ten_zpow_neg_mul_pow (n : Nat) : (10 : Rat) ^ (-(n : Int)) * 10 ^ n = 1 := by
  rw [zpow_neg, zpow_natCast]
  exact inv_mul_cancel₀ (pow_ne_zero n (by norm_num))

/-- The two numbers of a scaling are positive, and the second is twice the value of one place, as it
is scaled by the first. -/
theorem exists_scaling (e : Int) : ∃ n d : Nat, scaling e = (n, 2 * d) ∧ 0 < n ∧ 0 < d ∧
    (10 : Rat) ^ e * oneUnits * n = d := by
  rw [scaling]
  split
  · rename_i he
    obtain ⟨k, rfl⟩ := Int.eq_ofNat_of_zero_le he
    refine ⟨1, 10 ^ k * oneUnits, ?_, Nat.one_pos, ?_, ?_⟩
    · exact congrArg (Prod.mk 1) (shiftLeft_eq_two_mul (10 ^ k))
    · exact Nat.mul_pos (Nat.pow_pos (by decide)) oneUnits_pos
    · rw [zpow_natCast]
      push_cast
      exact mul_one _
  · rename_i he
    obtain ⟨k, rfl⟩ : ∃ k : Nat, e = -(k : Int) := ⟨(-e).toNat, by omega⟩
    refine ⟨10 ^ k, 1 * oneUnits, ?_, Nat.pow_pos (by decide), ?_, ?_⟩
    · rw [Int.neg_neg, Int.toNat_natCast]
      exact congrArg (Prod.mk (10 ^ k)) (shiftLeft_eq_two_mul 1)
    · exact Nat.mul_pos Nat.one_pos oneUnits_pos
    · push_cast
      rw [mul_right_comm, ten_zpow_neg_mul_pow]

/-- **A decimal in the interval around a magnitude rounds to its rank.** -/
theorem near_of_holds {r : Nat} (hr : 0 < r) {e : Int} {c : Nat}
    (h : (Interval.around .double (unitsOfRank r)).holds e c = true) :
    c ≠ 0 ∧ Near (units ⟨c, e⟩) r := by
  obtain ⟨n, d, hs, hn, -, hv⟩ := exists_scaling e
  have value : units ⟨c, e⟩ * n = (c * d : Nat) := by
    rw [units, mul_assoc, mul_assoc, ← mul_assoc ((10 : Rat) ^ e), hv]
    push_cast
    rfl
  rw [around_double hr, Interval.holds, hs, Bool.and_eq_true] at h
  obtain ⟨hc, h⟩ := h
  refine ⟨by simpa using hc, (near_iff hn value).2 ?_⟩
  have twice : c * (2 * d) = 2 * (c * d) := Nat.mul_left_comm c 2 d
  rw [twice, Nat.add_comm (unitsOfRank r) (unitsOfRank (r - 1))] at h
  split at h
  · rename_i heven
    rw [Bool.and_eq_true, decide_eq_true_eq, decide_eq_true_eq] at h
    rw [decide_eq_true_eq] at heven
    exact ⟨h.1, h.2, fun ho => absurd ho (by omega)⟩
  · rw [Bool.and_eq_true, decide_eq_true_eq, decide_eq_true_eq] at h
    exact ⟨Nat.le_of_lt h.1, Nat.le_of_lt h.2, fun _ => h⟩

/-- A hit lies in the interval. -/
theorem Interval.holds_of_hit_eq {i : Interval} {e : Int} {c : Nat} (h : i.hit e = some c) :
    i.holds e c = true := by
  simp only [Interval.hit] at h
  split at h
  · rename_i hf hs
    cases h
    rcases roundHalfEven_eq_or (i.mid * (scaling e).1) (scaling e).2 with hr | hr
    · rw [hr]
      exact hf
    · rw [hr]
      exact hs
  · rename_i hf hs
    cases h
    exact hf
  · rename_i hf hs
    cases h
    exact hs
  · cases h

/-- On a decimal grid whose step is at most the distance from the midpoint to the lower end, there is
a hit: the multiple below the midpoint. -/
theorem Interval.hit_ne_none {i : Interval} {e : Int} (hlow : i.low < i.mid) (hhigh : i.mid < i.high)
    (h : (scaling e).2 ≤ (i.mid - i.low) * (scaling e).1) : i.hit e ≠ none := by
  obtain ⟨n, d, hs, hn, hd, -⟩ := exists_scaling e
  have inside : i.holds e (i.mid * (scaling e).1 / (scaling e).2) = true := by
    rw [hs] at h ⊢
    dsimp only at h ⊢
    have split : 2 * d * (i.mid * n / (2 * d)) + i.mid * n % (2 * d) = i.mid * n :=
      Nat.div_add_mod _ _
    have small : i.mid * n % (2 * d) < 2 * d := Nat.mod_lt _ (by omega)
    have above : i.mid * n < i.high * n := Nat.mul_lt_mul_of_pos_right hhigh hn
    rw [Nat.sub_mul] at h
    have below : i.low * n ≤ i.mid * n := Nat.mul_le_mul_right n (Nat.le_of_lt hlow)
    have hpos : i.mid * n / (2 * d) ≠ 0 := by
      intro h0
      rw [h0] at split
      omega
    rw [Nat.mul_comm] at split
    rw [Interval.holds, hs, Bool.and_eq_true]
    refine ⟨by simpa using hpos, ?_⟩
    split
    · rw [Bool.and_eq_true, decide_eq_true_eq, decide_eq_true_eq]
      omega
    · rw [Bool.and_eq_true, decide_eq_true_eq, decide_eq_true_eq]
      omega
  intro hnone
  simp only [Interval.hit] at hnone
  split at hnone
  · cases hnone
  · cases hnone
  · cases hnone
  · rename_i hf hs
    rw [inside] at hf
    cases hf

/-- A search that meets a grid with a hit ends with a decimal in the interval. -/
theorem Interval.search_holds {i : Interval} : ∀ {fuel : Nat} {e : Int} {j : Nat}, j < fuel →
    i.hit (e - j) ≠ none → i.holds (i.search fuel e).exponent (i.search fuel e).digits = true
  | fuel + 1, e, j, hj, h => by
    rw [Interval.search]
    cases he : i.hit e with
    | some c => exact Interval.holds_of_hit_eq he
    | none =>
      cases j with
      | zero =>
        rw [Int.natCast_zero, Int.sub_zero] at h
        exact absurd he h
      | succ j =>
        apply Interval.search_holds (Nat.lt_of_succ_lt_succ hj)
        rw [show e - 1 - (j : Int) = e - ((j + 1 : Nat) : Int) by omega]
        exact h

/-! ### The search does not run dry -/

theorem ten_pow_le_two_pow (k : Nat) : 10 ^ k ≤ 2 ^ (10 * (k / 3) + 4 * (k % 3)) := by
  calc 10 ^ k = (10 ^ 3) ^ (k / 3) * 10 ^ (k % 3) := by
        rw [← Nat.pow_mul, ← Nat.pow_add, Nat.div_add_mod]
    _ ≤ (2 ^ 10) ^ (k / 3) * (2 ^ 4) ^ (k % 3) :=
        Nat.mul_le_mul (Nat.pow_le_pow_left (by decide) _) (Nat.pow_le_pow_left (by decide) _)
    _ = 2 ^ (10 * (k / 3) + 4 * (k % 3)) := by rw [← Nat.pow_mul, ← Nat.pow_mul, ← Nat.pow_add]

theorem two_pow_le_ten_pow (k : Nat) : 2 ^ (93 * (k / 28) + 3 * (k % 28)) ≤ 10 ^ k := by
  calc 2 ^ (93 * (k / 28) + 3 * (k % 28)) = (2 ^ 93) ^ (k / 28) * (2 ^ 3) ^ (k % 28) := by
        rw [← Nat.pow_mul, ← Nat.pow_mul, ← Nat.pow_add]
    _ ≤ (10 ^ 28) ^ (k / 28) * 10 ^ (k % 28) :=
        Nat.mul_le_mul (Nat.pow_le_pow_left (by decide) _) (Nat.pow_le_pow_left (by decide) _)
    _ = 10 ^ k := by rw [← Nat.pow_mul, ← Nat.pow_add, Nat.div_add_mod]

theorem shiftLeft_mul_two_pow (a m n : Nat) : a <<< m * 2 ^ n = a * 2 ^ (m + n) := by
  rw [Nat.shiftLeft_eq, Nat.mul_assoc, ← Nat.pow_add]

/-- The estimate of the exponent of the leading digit of a magnitude with a given binary length. -/
def leadingEstimate (log : Nat) : Int := Int.fdiv ((log - 1074 : Int) * 30103) 100000

/-- On the last decimal grid of a search one step is less than half of the least unit that a magnitude
of this length can have.  The estimate is off by less than one bit, and 22 digits are 73 bits. -/
theorem scaling_last_le {log : Nat} (h : log < 2098) :
    (scaling (leadingEstimate log - 22)).2 * 2 ^ 53 ≤ 2 ^ log * (scaling (leadingEstimate log - 22)).1 := by
  have estimate : leadingEstimate log = ((log - 1074 : Int) * 30103) / 100000 :=
    Int.fdiv_eq_ediv_of_nonneg _ (by decide)
  rw [scaling]
  split
  · rename_i he
    obtain ⟨k, hk⟩ := Int.eq_ofNat_of_zero_le he
    rw [hk, Int.toNat_natCast]
    calc (10 ^ k <<< 1075) * 2 ^ 53 = 10 ^ k * 2 ^ (1075 + 53) := shiftLeft_mul_two_pow _ _ _
      _ ≤ 2 ^ (10 * (k / 3) + 4 * (k % 3)) * 2 ^ (1075 + 53) :=
          Nat.mul_le_mul_right _ (ten_pow_le_two_pow k)
      _ = 2 ^ (10 * (k / 3) + 4 * (k % 3) + (1075 + 53)) := by rw [← Nat.pow_add 2]
      _ ≤ 2 ^ log := Nat.pow_le_pow_right (by decide) (by omega)
      _ = 2 ^ log * 1 := (Nat.mul_one _).symm
  · rename_i he
    obtain ⟨k, hk⟩ : ∃ k : Nat, leadingEstimate log - 22 = -(k : Int) :=
      ⟨(22 - leadingEstimate log).toNat, by omega⟩
    rw [hk, Int.neg_neg, Int.toNat_natCast]
    calc (1 <<< 1075) * 2 ^ 53 = 1 * 2 ^ (1075 + 53) := shiftLeft_mul_two_pow _ _ _
      _ = 2 ^ (1075 + 53) := one_mul _
      _ ≤ 2 ^ (log + (93 * (k / 28) + 3 * (k % 28))) :=
          pow_le_pow_right₀ one_le_two (by omega)
      _ = 2 ^ log * 2 ^ (93 * (k / 28) + 3 * (k % 28)) := Nat.pow_add _ _ _
      _ ≤ 2 ^ log * 10 ^ k := Nat.mul_le_mul_left _ (two_pow_le_ten_pow k)

/-- The distance to the magnitude below is not small against the magnitude. -/
theorem two_pow_log2_le {r : Nat} (hr : 0 < r) :
    2 ^ Nat.log2 (unitsOfRank r) ≤ (unitsOfRank r - unitsOfRank (r - 1)) * 2 ^ 53 := by
  obtain ⟨k, c, rfl, h0, hc, hk⟩ := exists_step hr
  have length : 2 ^ Nat.log2 (unitsOfRank (k * binade + c)) ≤ 2 ^ (k + 52) := by
    rw [unitsOfRank_step (Nat.le_of_lt hc) hk]
    apply Nat.pow_le_pow_right (by decide)
    rcases hk with rfl | hk
    · rw [Nat.pow_zero, Nat.mul_one]
      have : Nat.log2 c < 53 := (Nat.log2_lt (Nat.ne_of_gt h0)).2 hc
      omega
    · rw [log2_scaled k hc hk]
      omega
  have cases : (k = 0 ∧ 0 < c ∨ binade < c) ∨ k ≠ 0 ∧ c = binade := by omega
  rcases cases with h | ⟨hk0, rfl⟩
  · have := unitsOfRank_pred (Nat.le_of_lt hc) h
    calc 2 ^ Nat.log2 (unitsOfRank (k * binade + c)) ≤ 2 ^ (k + 52) := length
      _ ≤ 2 ^ (k + 53) := Nat.pow_le_pow_right (by decide) (by omega)
      _ = 2 ^ k * 2 ^ 53 := Nat.pow_add _ _ _
      _ ≤ _ := Nat.mul_le_mul_right _ (by omega)
  · obtain ⟨j, rfl⟩ : ∃ j, k = j + 1 := ⟨k - 1, by omega⟩
    have := unitsOfRank_pred_first j
    calc 2 ^ Nat.log2 (unitsOfRank ((j + 1) * binade + binade)) ≤ 2 ^ (j + 1 + 52) := length
      _ = 2 ^ j * 2 ^ 53 := by rw [← Nat.pow_add, Nat.add_assoc]
      _ ≤ _ := Nat.mul_le_mul_right _ (by omega)

theorem log2_lt_add {n a b : Nat} (hn : n ≠ 0) (h : n < 2 ^ a * 2 ^ b) : Nat.log2 n < a + b := by
  rw [Nat.log2_lt hn, Nat.pow_add]
  exact h

/-- Finite magnitudes have at most 2098 bits. -/
theorem log2_unitsOfRank_lt {r : Nat} (hr : 0 < r) (h : r < 2047 * binade) :
    Nat.log2 (unitsOfRank r) < 2098 := by
  have hpos : 0 < unitsOfRank r := by
    have := unitsOfRank_strictMono hr
    omega
  have bound : unitsOfRank r < 2 ^ 53 * 2 ^ 2045 := by
    rw [← unitsOfRank_top]
    exact unitsOfRank_strictMono h
  exact log2_lt_add (Nat.ne_of_gt hpos) bound

/-- **The shortest decimal of a positive finite magnitude rounds to it.** -/
theorem shortest_near {r : Nat} (hr : 0 < r) (h : r < 2047 * binade) :
    (shortest .double (unitsOfRank r)).digits ≠ 0 ∧ Near (shortest .double (unitsOfRank r)).units r := by
  apply near_of_holds hr
  -- The last of the 25 grids is that of the estimate less 22 places.
  apply Interval.search_holds (show 24 < 25 by decide)
  show (Interval.around .double (unitsOfRank r)).hit
    (leadingEstimate (Nat.log2 (unitsOfRank r)) + 2 - (24 : Nat)) ≠ none
  rw [show leadingEstimate (Nat.log2 (unitsOfRank r)) + 2 - ((24 : Nat) : Int) =
    leadingEstimate (Nat.log2 (unitsOfRank r)) - 22 by omega]
  have below : unitsOfRank (r - 1) < unitsOfRank r := unitsOfRank_strictMono (by omega)
  have above : unitsOfRank r < unitsOfRank (r + 1) := unitsOfRank_lt_succ r
  rw [around_double hr]
  apply Interval.hit_ne_none
  · show unitsOfRank r + unitsOfRank (r - 1) < 2 * unitsOfRank r
    omega
  · show 2 * unitsOfRank r < unitsOfRank r + unitsOfRank (r + 1)
    omega
  · show _ ≤ (2 * unitsOfRank r - (unitsOfRank r + unitsOfRank (r - 1))) * _
    rw [show 2 * unitsOfRank r - (unitsOfRank r + unitsOfRank (r - 1)) =
      unitsOfRank r - unitsOfRank (r - 1) by omega]
    apply Nat.le_of_mul_le_mul_right _ (Nat.two_pow_pos 53)
    calc _ ≤ _ := scaling_last_le (log2_unitsOfRank_lt hr h)
      _ ≤ (unitsOfRank r - unitsOfRank (r - 1)) * 2 ^ 53 * _ := Nat.mul_le_mul_right _ (two_pow_log2_le hr)
      _ = _ := Nat.mul_right_comm _ _ _

end Decimal

end Assay
