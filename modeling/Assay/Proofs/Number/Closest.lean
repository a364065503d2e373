import Assay.Number.Arithmetic
import Assay.Proofs.Number.Reading

/-!
# The double nearest to a rational

A rational has a nearest double, up to the sign of zero; past the last binade it is an infinity.

* `IsNearest` — a double is the nearest one to a rational;
* `IsNearest.toRat?_eq` — nearest doubles of one rational have one value;
* `isNearest_self` — a double is the nearest one to its own value;
* `ofInt_isNearest`, `sub_isNearest`, `mul_isNearest` — an integer becomes the nearest double, and a
  difference or a product of doubles is the nearest one to the exact one;
* `isNearest_sub_eq_zero_iff` — a difference of doubles never vanishes in rounding.
-/

namespace Assay.Double

/-- A rational that is zero has either sign. -/
def HasSign (negative : Bool) (v : Rat) : Prop := if negative then v ≤ 0 else 0 ≤ v

/-- The double is the nearest one to the rational; it is infinite where the rational rounds to a rank
that no finite double has. -/
inductive IsNearest (v : Rat) : Double → Prop
  | finite {s : Bool} {m : Magnitude} (hs : HasSign s v) (h : Near (|v| * oneUnits) m) :
      IsNearest v (.finite s m)
  | infinite {s : Bool} {r : Nat} (hs : HasSign s v) (h : Near (|v| * oneUnits) r)
      (hr : 2047 * binade ≤ r) : IsNearest v (.infinite s)

/-! ### Values -/

/-- The units of a finite double, as they are added. -/
def signedUnits (s : Bool) (m : Magnitude) : Int :=
  if s then -(unitsOfRank m : Int) else unitsOfRank m

theorem toRat?_finite (s : Bool) (m : Magnitude) :
    toRat? (.finite s m) = some ((signedUnits s m : Rat) / oneUnits) := by
  have value (u : Int) : mkRat u oneUnits = (u : Rat) / oneUnits := Rat.mkRat_eq_div u oneUnits
  cases s <;> simp [toRat?, units?, signedUnits, value]

theorem toRat?_zero : toRat? zero = some 0 := by
  rw [zero, signedZero, toRat?_finite]
  simp [signedUnits, unitsOfRank_zero]

/-- A double with a value is finite. -/
theorem exists_finite_of_toRat? {x : Double} {v : Rat} (h : x.toRat? = some v) :
    ∃ s m, x = .finite s m ∧ v = (signedUnits s m : Rat) / oneUnits := by
  cases x with
  | nan => cases h
  | infinite s => cases h
  | finite s m =>
    rw [toRat?_finite] at h
    exact ⟨s, m, rfl, (Option.some.inj h).symm⟩

theorem oneUnits_cast_pos : (0 : Rat) < oneUnits := by exact_mod_cast Decimal.oneUnits_pos

theorem natAbs_signedUnits (s : Bool) (m : Magnitude) : (signedUnits s m).natAbs = unitsOfRank m := by
  cases s <;> simp [signedUnits]

/-- The magnitude of a quotient of units, in units. -/
theorem abs_div_oneUnits_mul (u : Int) : |(u : Rat) / oneUnits| * oneUnits = u.natAbs := by
  rw [abs_div, abs_of_pos oneUnits_cast_pos, div_mul_cancel₀ _ (ne_of_gt oneUnits_cast_pos), Nat.cast_natAbs,
    Int.cast_abs]

theorem hasSign_div (u : Int) : HasSign (decide (u < 0)) ((u : Rat) / oneUnits) := by
  by_cases h : u < 0
  · have hu : (u : Rat) ≤ 0 := by exact_mod_cast Int.le_of_lt h
    simpa [HasSign, h] using div_nonpos_of_nonpos_of_nonneg hu (le_of_lt oneUnits_cast_pos)
  · have hu : (0 : Rat) ≤ u := by exact_mod_cast Int.not_lt.1 h
    simpa [HasSign, h] using div_nonneg hu (le_of_lt oneUnits_cast_pos)

theorem hasSign_signedUnits (s : Bool) (m : Magnitude) :
    HasSign s ((signedUnits s m : Rat) / oneUnits) := by
  cases s with
  | true =>
    have hu : ((signedUnits true m : Int) : Rat) ≤ 0 := by
      simp [signedUnits]
    exact div_nonpos_of_nonpos_of_nonneg hu (le_of_lt oneUnits_cast_pos)
  | false =>
    have hu : (0 : Rat) ≤ ((signedUnits false m : Int) : Rat) := by
      simp [signedUnits]
    exact div_nonneg hu (le_of_lt oneUnits_cast_pos)

/-! ### One value -/

/-- A rank is what its own magnitude rounds to. -/
theorem near_unitsOfRank (r : Nat) : Near (unitsOfRank r) r := by
  have below : unitsOfRank (r - 1) ≤ unitsOfRank r := unitsOfRank_mono (Nat.sub_le r 1)
  have above := unitsOfRank_lt_succ r
  refine ⟨?_, ?_, ?_⟩
  · exact_mod_cast (by omega : unitsOfRank (r - 1) + unitsOfRank r ≤ 2 * unitsOfRank r)
  · exact_mod_cast (by omega : 2 * unitsOfRank r ≤ unitsOfRank r + unitsOfRank (r + 1))
  · intro hr
    have below' : unitsOfRank (r - 1) < unitsOfRank r := unitsOfRank_strictMono (by omega)
    constructor
    · exact_mod_cast (by omega : unitsOfRank (r - 1) + unitsOfRank r < 2 * unitsOfRank r)
    · exact_mod_cast (by omega : 2 * unitsOfRank r < unitsOfRank r + unitsOfRank (r + 1))

/-- **A double is the nearest one to its own value.** -/
theorem isNearest_self {x : Double} {v : Rat} (h : x.toRat? = some v) : IsNearest v x := by
  obtain ⟨s, m, rfl, rfl⟩ := exists_finite_of_toRat? h
  refine .finite (hasSign_signedUnits s m) ?_
  rw [abs_div_oneUnits_mul, natAbs_signedUnits]
  exact near_unitsOfRank m

theorem near_zero : Near 0 0 := by
  have zero : ((unitsOfRank 0 : Nat) : Rat) = 0 := by rw [unitsOfRank_zero, Nat.cast_zero]
  rw [← zero]
  exact near_unitsOfRank 0

/-- **The nearest doubles of one rational have one value.** -/
theorem IsNearest.toRat?_eq {v : Rat} {x y : Double} (hx : IsNearest v x) (hy : IsNearest v y) :
    x.toRat? = y.toRat? := by
  cases hx with
  | @finite s m hs hm =>
    cases hy with
    | @finite t n ht hn =>
      have ranks : m = n := Fin.ext (hm.unique hn)
      subst ranks
      by_cases hst : s = t
      · rw [hst]
      · -- With both signs the rational is zero, and so is the rank.
        have zero : v = 0 := by
          cases s <;> cases t <;> first | exact absurd rfl hst | exact le_antisymm ‹_› ‹_›
        have rank : m.val = 0 := by
          rw [zero, abs_zero, zero_mul] at hm
          exact hm.unique near_zero
        rw [toRat?_finite, toRat?_finite]
        simp [signedUnits, rank, unitsOfRank_zero]
    | infinite _ hr hle =>
      have := hm.unique hr
      omega
  | infinite _ hr hle =>
    cases hy with
    | finite _ hn =>
      have := hr.unique hn
      omega
    | infinite => rfl

/-- The nearest double of a value has that value. -/
theorem IsNearest.toRat?_of_toRat? {v : Rat} {x y : Double} (hx : IsNearest v x)
    (hy : y.toRat? = some v) : x.toRat? = some v :=
  (hx.toRat?_eq (isNearest_self hy)).trans hy

theorem IsNearest.abs {v : Rat} {x : Double} (h : IsNearest v x) : IsNearest |v| x.abs := by
  cases h with
  | finite hs hn => exact .finite (abs_nonneg v) (by rwa [abs_of_nonneg (abs_nonneg v)])
  | infinite hs hn hr => exact .infinite (abs_nonneg v) (by rwa [abs_of_nonneg (abs_nonneg v)]) hr

theorem IsNearest.ne_nan {v : Rat} {x : Double} (h : IsNearest v x) (mark : Nat) : x ≠ .nan mark := by
  cases h <;> simp

/-- Nothing that is not negative is nearest to the negative infinity. -/
theorem IsNearest.ne_infinite_true {v : Rat} {x : Double} (h : IsNearest v x) (hv : 0 ≤ v) :
    x ≠ .infinite true := by
  rintro rfl
  cases h with
  | infinite hs hn hr =>
    have zero : v = 0 := le_antisymm hs hv
    rw [zero, abs_zero, zero_mul] at hn
    have := hn.unique near_zero
    simp only [binade] at hr
    omega

/-- The nearest double of what is not negative has no negative value. -/
theorem IsNearest.toRat?_nonneg {v u : Rat} {x : Double} (h : IsNearest v x) (hv : 0 ≤ v)
    (hu : x.toRat? = some u) : 0 ≤ u := by
  obtain ⟨s, m, rfl, rfl⟩ := exists_finite_of_toRat? hu
  cases h with
  | finite hs hn =>
    cases s with
    | false => exact hasSign_signedUnits false m
    | true =>
      -- Only zero has a nearest double of negative sign.
      have zero : v = 0 := le_antisymm hs hv
      have nearest : IsNearest 0 (Double.finite true m) := zero ▸ .finite hs hn
      exact le_of_eq (Option.some.inj ((nearest.toRat?_of_toRat? toRat?_zero).symm.trans hu))

/-- What is not negative rounds to a rank, and its nearest double is the value of that rank or, past the
last one, the infinity. -/
theorem IsNearest.exists_rank {v : Rat} {x : Double} (h : IsNearest v x) (hv : 0 ≤ v) :
    ∃ r, Near (v * oneUnits) r ∧
      (r < 2047 * binade ∧ x.toRat? = some ((unitsOfRank r : Rat) / oneUnits) ∨
        2047 * binade ≤ r ∧ x = .infinite false) := by
  cases h with
  | @finite s m hs hn =>
    have positive : IsNearest v (.finite false m) := .finite hv hn
    have value := (IsNearest.finite hs hn).toRat?_eq positive
    rw [abs_of_nonneg hv] at hn
    refine ⟨m, hn, Or.inl ⟨m.isLt, ?_⟩⟩
    rw [value, toRat?_finite]
    simp [signedUnits]
  | @infinite s r hs hn hr =>
    have sign : s = false := by
      cases s with
      | false => rfl
      | true => exact absurd rfl ((IsNearest.infinite hs hn hr).ne_infinite_true hv)
    rw [abs_of_nonneg hv] at hn
    exact ⟨r, hn, Or.inr ⟨hr, by rw [sign]⟩⟩

/-! ### Rounded operations -/

theorem ofUnits_isNearest {n d : Nat} (hd : 0 < d) {v : Rat} (hv : |v| * oneUnits * d = n) {s : Bool}
    (hs : HasSign s v) : IsNearest v (ofUnits s n d) := by
  have near := rankNear_near hd hv
  unfold ofUnits
  split
  · exact .finite hs near
  · rename_i h
    exact .infinite hs near (Nat.not_lt.1 h)

/-- **An integer becomes the nearest double.** -/
theorem ofInt_isNearest (i : Int) : IsNearest i (ofInt i) := by
  apply ofUnits_isNearest Nat.one_pos
  · rw [Nat.cast_one, mul_one, Nat.cast_mul, Nat.cast_natAbs, Int.cast_abs]
  · by_cases h : i < 0
    · simpa [HasSign, h] using (by exact_mod_cast Int.le_of_lt h : (i : Rat) ≤ 0)
    · simpa [HasSign, h] using (by exact_mod_cast Int.not_lt.1 h : (0 : Rat) ≤ i)

theorem ofSignedUnits_isNearest (u : Int) : IsNearest ((u : Rat) / oneUnits) (ofSignedUnits u) := by
  apply ofUnits_isNearest Nat.one_pos
  · rw [Nat.cast_one, mul_one, abs_div_oneUnits_mul]
  · exact hasSign_div u

theorem signedUnits_not (s : Bool) (m : Magnitude) : signedUnits (!s) m = -signedUnits s m := by
  cases s <;> simp [signedUnits]

/-- **A difference of doubles is the nearest one to the exact difference.** -/
theorem sub_isNearest {x y : Double} {p q : Rat} (hx : x.toRat? = some p) (hy : y.toRat? = some q) :
    IsNearest (p - q) (x.sub y) := by
  obtain ⟨s, m, rfl, rfl⟩ := exists_finite_of_toRat? hx
  obtain ⟨t, n, rfl, rfl⟩ := exists_finite_of_toRat? hy
  have exact : ((signedUnits s m : Rat) / oneUnits - (signedUnits t n : Rat) / oneUnits) =
      ((signedUnits s m + signedUnits (!t) n : Int) : Rat) / oneUnits := by
    rw [signedUnits_not]
    push_cast
    ring
  rw [exact, sub, neg, add]
  split
  · -- A negative zero less a positive one.
    rename_i h
    obtain ⟨-, -, hm, hn⟩ := h
    have zero : signedUnits s m + signedUnits (!t) n = 0 := by
      simp [signedUnits, hm, hn, unitsOfRank_zero]
    rw [zero, Int.cast_zero, zero_div]
    refine .finite (le_refl 0) ?_
    rw [abs_zero, zero_mul]
    exact near_zero
  · exact ofSignedUnits_isNearest _

theorem hasSign_mul {s t : Bool} {v w : Rat} (hv : HasSign s v) (hw : HasSign t w) :
    HasSign (s != t) (v * w) := by
  cases s <;> cases t
  · exact mul_nonneg hv hw
  · exact mul_nonpos_of_nonneg_of_nonpos hv hw
  · exact mul_nonpos_of_nonpos_of_nonneg hv hw
  · exact mul_nonneg_of_nonpos_of_nonpos hv hw

/-- **A product of doubles is the nearest one to the exact product.** -/
theorem mul_isNearest {x y : Double} {p q : Rat} (hx : x.toRat? = some p) (hy : y.toRat? = some q) :
    IsNearest (p * q) (x.mul y) := by
  obtain ⟨s, m, rfl, rfl⟩ := exists_finite_of_toRat? hx
  obtain ⟨t, n, rfl, rfl⟩ := exists_finite_of_toRat? hy
  refine ofUnits_isNearest Decimal.oneUnits_pos ?_
    (hasSign_mul (hasSign_signedUnits s m) (hasSign_signedUnits t n))
  have left := abs_div_oneUnits_mul (signedUnits s m)
  have right := abs_div_oneUnits_mul (signedUnits t n)
  rw [natAbs_signedUnits] at left right
  rw [abs_mul, mul_assoc, mul_mul_mul_comm, left, right, Nat.cast_mul]

/-- **A difference of doubles does not vanish in rounding.** -/
theorem isNearest_sub_eq_zero_iff {x y z : Double} {p q : Rat} (hx : x.toRat? = some p)
    (hy : y.toRat? = some q) (hz : IsNearest |p - q| z) : z.toRat? = some 0 ↔ p = q := by
  constructor
  · intro h0
    obtain ⟨s, m, rfl, rfl⟩ := exists_finite_of_toRat? hx
    obtain ⟨t, n, rfl, rfl⟩ := exists_finite_of_toRat? hy
    obtain ⟨b, r, rfl, hr⟩ := exists_finite_of_toRat? h0
    have rank : unitsOfRank r = 0 := by
      have units : signedUnits b r = 0 := by
        have := (div_eq_zero_iff.1 hr.symm).resolve_right (ne_of_gt oneUnits_cast_pos)
        exact_mod_cast this
      rw [← natAbs_signedUnits b r, units, Int.natAbs_zero]
    have first : r.val = 0 := unitsOfRank_eq_zero_iff.1 rank
    cases hz with
    | finite _ hn =>
      -- The exact difference is a whole number of units, and it rounds to none.
      rw [abs_of_nonneg (abs_nonneg _), ← sub_div, ← Int.cast_sub, abs_div_oneUnits_mul, first] at hn
      have few : 2 * (signedUnits s m - signedUnits t n).natAbs ≤ unitsOfRank 0 + unitsOfRank (0 + 1) := by
        exact_mod_cast hn.2.1
      have one : unitsOfRank (0 + 1) = 1 := rfl
      rw [unitsOfRank_zero, one] at few
      have same : signedUnits s m = signedUnits t n := by omega
      rw [same]
  · rintro rfl
    rw [sub_self, abs_zero] at hz
    exact hz.toRat?_of_toRat? toRat?_zero

end Assay.Double
