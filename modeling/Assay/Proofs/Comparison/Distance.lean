import Assay.Proofs.Comparison.Approx
import Assay.Proofs.Comparison.Strict
import Assay.Proofs.Number.Closest

/-!
# Distances and exact bounds

The distance of two numbers is exact when both are integers, and when an integer is beyond the range of
doubles.  Otherwise both become doubles, and the distance is that of these doubles, rounded once.

* `Rounded` — two numbers are subtracted as doubles of given values;
* `distance_cases` — the distance of two finite numbers is exact or rounded;
* `deepEqual_of_numbers` — deep equality of two finite numbers is equality of their values;
* `within_plain_cases` — an absolute bound decides by the exact distance or by the rounded one;
* `within_exact_iff` — when an absolute bound decides like the exact distance;
* `within_merged` — a pair that a bound of zero accepts although the values differ.
-/

namespace Assay

open Double (IsNearest)

/-- A finite double whose value is at most a bound. -/
def Double.AtMost (z : Double) (r : Rat) : Prop := ∃ v, z.toRat? = some v ∧ v ≤ r

namespace Quantity

@[simp] theorem rational?_int (i : Int) : rational? (.int i) = some (i : Rat) := rfl

@[simp] theorem rational?_double (x : Double) : rational? (.double x) = x.toRat? := rfl

@[simp] theorem rational?_ratio (q : Rat) : rational? (.ratio q) = some q := rfl

/-- An integer. -/
def IsInteger (x : Quantity) : Prop := ∃ i, x = .int i

/-- The number becomes a finite double of a given value. -/
def RoundsTo (x : Quantity) (v : Rat) : Prop :=
  ∃ p d, x.rational? = some p ∧ IsNearest p d ∧ d.toRat? = some v

/-- Two numbers that are not both integers are subtracted as finite doubles of given values. -/
structure Rounded (x y : Quantity) (v w : Rat) : Prop where
  mixed : ¬ (x.IsInteger ∧ y.IsInteger)
  left : x.RoundsTo v
  right : y.RoundsTo w

/-- A number that a value can be: no ratio. -/
def IsOperand (x : Quantity) : Prop := x.IsInteger ∨ ∃ d, x = .double d

theorem isOperand_of_value {a : Value} {x : Quantity} (h : ofValue? a = some x) : x.IsOperand := by
  unfold ofValue? at h
  split at h
  · cases h
    exact Or.inl ⟨_, rfl⟩
  · cases h
    exact Or.inl ⟨_, rfl⟩
  · cases h
    exact Or.inr ⟨_, rfl⟩
  · cases h

/-! ### Becoming a double -/

theorem RoundsTo.unique {x : Quantity} {v w : Rat} (hv : x.RoundsTo v) (hw : x.RoundsTo w) : v = w := by
  obtain ⟨p, d, hp, hd, hdv⟩ := hv
  obtain ⟨q, e, hq, he, hew⟩ := hw
  cases hp.symm.trans hq
  have := hd.toRat?_eq he
  rw [hdv, hew] at this
  exact Option.some.inj this

/-- A double stays what it is. -/
theorem roundsTo_double {x : Double} {p : Rat} (h : x.toRat? = some p) : (double x).RoundsTo p :=
  ⟨p, x, (rational?_double x).trans h, Double.isNearest_self h, h⟩

/-- The nearest double of an integer is infinite, and then the integer has none, or finite. -/
theorem doubleOfInt?_cases (i : Int) :
    (∃ s, Double.ofInt i = .infinite s ∧ doubleOfInt? i = none) ∨
      ∃ s m, Double.ofInt i = .finite s m ∧ doubleOfInt? i = some (.finite s m) := by
  have near := (Double.ofInt_isNearest i).ne_nan
  unfold doubleOfInt?
  generalize Double.ofInt i = x at near ⊢
  cases x with
  | nan mark => exact absurd rfl (near mark)
  | infinite s => exact Or.inl ⟨s, rfl, rfl⟩
  | finite s m => exact Or.inr ⟨s, m, rfl, rfl⟩

/-- An integer that has a double becomes it. -/
theorem roundsTo_int {i : Int} {d : Double} (h : doubleOfInt? i = some d) :
    ∃ v, d.toRat? = some v ∧ (int i).RoundsTo v := by
  rcases doubleOfInt?_cases i with ⟨s, -, hnone⟩ | ⟨s, m, hofInt, hsome⟩
  · rw [hnone] at h
    cases h
  · obtain rfl : Double.finite s m = d := Option.some.inj (hsome.symm.trans h)
    have value := Double.toRat?_finite s m
    have near := Double.ofInt_isNearest i
    rw [hofInt] at near
    exact ⟨_, value, i, _, rational?_int i, near, value⟩

/-- An integer beyond the range of doubles becomes none. -/
theorem not_roundsTo_int {i : Int} (h : doubleOfInt? i = none) (v : Rat) : ¬ (int i).RoundsTo v := by
  rintro ⟨p, d, hp, hd, hv⟩
  obtain rfl : (i : Rat) = p := Option.some.inj hp
  rcases doubleOfInt?_cases i with ⟨s, hofInt, -⟩ | ⟨s, m, -, hsome⟩
  · have near := Double.ofInt_isNearest i
    rw [hofInt] at near
    have value : (Double.infinite s).toRat? = some v := (near.toRat?_eq hd).trans hv
    cases value
  · rw [hsome] at h
    cases h

/-! ### The distance -/

theorem rational?_abs_ratio (q : Rat) : (abs (.ratio q)).rational? = some |q| := by
  by_cases h : q < 0
  · rw [abs_of_neg h]
    simp [abs, h]
  · rw [abs_of_nonneg (not_lt.1 h)]
    simp [abs, h]

/-- The distance of two doubles is the nearest one to the distance of their values. -/
theorem abs_sub_isNearest {x y : Double} {v w : Rat} (hx : x.toRat? = some v) (hy : y.toRat? = some w) :
    IsNearest |v - w| (x.sub y).abs :=
  (Double.sub_isNearest hx hy).abs

theorem distance_int_double (i : Int) (y : Double) : distance (.int i) (.double y) =
    (doubleOfInt? i).elim (distanceBeyond i y) fun x => .double (x.sub y).abs := rfl

theorem distance_double_int (x : Double) (j : Int) : distance (.double x) (.int j) =
    (doubleOfInt? j).elim (distanceBeyond j x) fun y => .double (x.sub y).abs := rfl

theorem rational?_distanceBeyond {i : Int} {x : Double} {q : Rat} (hx : x.toRat? = some q) :
    (distanceBeyond i x).rational? = some |i - q| := by
  unfold distanceBeyond
  rw [hx]
  exact rational?_abs_ratio _

theorem not_isInteger_double (x : Double) : ¬ (double x).IsInteger := by
  rintro ⟨i, h⟩
  cases h

/-- **The distance of two finite numbers is exact, or that of their doubles, rounded once.** -/
theorem distance_cases {x y : Quantity} {p q : Rat} (hx : x.rational? = some p) (hy : y.rational? = some q)
    (ox : x.IsOperand) (oy : y.IsOperand) :
    ((∀ v w, ¬ Rounded x y v w) ∧ (distance x y).rational? = some |p - q|) ∨
      ∃ v w z, Rounded x y v w ∧ IsNearest |v - w| z ∧ distance x y = .double z := by
  rcases ox with ⟨i, rfl⟩ | ⟨d, rfl⟩ <;> rcases oy with ⟨j, rfl⟩ | ⟨e, rfl⟩
  · obtain rfl : (i : Rat) = p := Option.some.inj hx
    obtain rfl : (j : Rat) = q := Option.some.inj hy
    left
    refine ⟨fun v w h => h.mixed ⟨⟨i, rfl⟩, ⟨j, rfl⟩⟩, ?_⟩
    simp [distance]
  · obtain rfl : (i : Rat) = p := Option.some.inj hx
    rw [rational?_double] at hy
    cases hi : doubleOfInt? i with
    | none =>
      left
      refine ⟨fun v w h => not_roundsTo_int hi v h.left, ?_⟩
      rw [distance_int_double, hi]
      exact rational?_distanceBeyond hy
    | some d =>
      right
      obtain ⟨v, hv, hround⟩ := roundsTo_int hi
      have rounded : Rounded (int i) (double e) v q :=
        ⟨fun h => not_isInteger_double e h.2, hround, roundsTo_double hy⟩
      exact ⟨v, q, _, rounded, abs_sub_isNearest hv hy, by rw [distance_int_double, hi]; rfl⟩
  · obtain rfl : (j : Rat) = q := Option.some.inj hy
    rw [rational?_double] at hx
    cases hj : doubleOfInt? j with
    | none =>
      left
      refine ⟨fun v w h => not_roundsTo_int hj w h.right, ?_⟩
      rw [distance_double_int, hj, abs_sub_comm]
      exact rational?_distanceBeyond hx
    | some e =>
      right
      obtain ⟨w, hw, hround⟩ := roundsTo_int hj
      have rounded : Rounded (double d) (int j) p w :=
        ⟨fun h => not_isInteger_double d h.1, roundsTo_double hx, hround⟩
      exact ⟨p, w, _, rounded, abs_sub_isNearest hx hw, by rw [distance_double_int, hj]; rfl⟩
  · rw [rational?_double] at hx hy
    right
    have rounded : Rounded (double d) (double e) p q :=
      ⟨fun h => not_isInteger_double d h.1, roundsTo_double hx, roundsTo_double hy⟩
    exact ⟨p, q, _, rounded, abs_sub_isNearest hx hy, rfl⟩

/-- A rounded distance is at most a finite bound exactly if its value is. -/
theorem le_iff_atMost {z : Double} {v r : Rat} {t : Quantity} (hz : IsNearest |v| z)
    (ht : t.rational? = some r) : (double z).le t = true ↔ z.AtMost r := by
  cases hr : z.toRat? with
  | some w =>
    rw [le_of_exact ((rational?_double z).trans hr) ht, decide_eq_true_iff]
    simp [Double.AtMost, hr]
  | none =>
    have infinite : z ≠ .infinite true := hz.ne_infinite_true (abs_nonneg v)
    simp [le, ht, infinite, Double.AtMost, hr]

end Quantity

/-! ### Deep equality of numbers -/

namespace Double

/-- A double is an integer exactly if its value is. -/
theorem toInt?_eq_some_iff {x : Double} {p : Rat} (h : x.toRat? = some p) {i : Int} :
    x.toInt? = some i ↔ p = i := by
  obtain ⟨s, m, rfl, rfl⟩ := exists_finite_of_toRat? h
  have units : (finite s m).units? = some (signedUnits s m) := by
    cases s <;> simp [units?, signedUnits]
  have positive : (0 : Int) < oneUnits := by exact_mod_cast Decimal.oneUnits_pos
  rw [div_eq_iff (ne_of_gt oneUnits_cast_pos), toInt?, units]
  have whole : ((signedUnits s m : Rat) = i * oneUnits) ↔ signedUnits s m = i * oneUnits := by
    exact_mod_cast Iff.rfl
  rw [whole]
  generalize signedUnits s m = u
  dsimp only
  split
  · rename_i h0
    rw [Option.some.injEq]
    exact Int.ediv_eq_iff_eq_mul_left (ne_of_gt positive) (Int.dvd_of_emod_eq_zero h0)
  · rename_i h0
    refine iff_of_false (by simp) ?_
    rintro rfl
    exact h0 (Int.mul_emod_left i oneUnits)

/-- Doubles of one value that is not zero are the same. -/
theorem eq_of_toRat?_eq {x y : Double} {p : Rat} (hx : x.toRat? = some p) (hy : y.toRat? = some p)
    (hp : p ≠ 0) : x = y := by
  obtain ⟨s, m, rfl, rfl⟩ := exists_finite_of_toRat? hx
  obtain ⟨t, n, rfl, h⟩ := exists_finite_of_toRat? hy
  have units : signedUnits s m = signedUnits t n := by
    have := (div_left_inj' (ne_of_gt oneUnits_cast_pos)).1 h
    exact_mod_cast this
  have ranks : m = n := by
    apply Fin.ext
    apply unitsOfRank_injective
    rw [← natAbs_signedUnits s m, units, natAbs_signedUnits]
  subst ranks
  have positive : unitsOfRank m ≠ 0 := by
    intro h0
    rw [← natAbs_signedUnits s m, Int.natAbs_eq_zero] at h0
    rw [h0] at hp
    simp at hp
  cases s <;> cases t <;> simp [signedUnits] at units ⊢ <;> omega

end Double

namespace Value

/-- The number that a numeric key stands for. -/
inductive NumericKey.HasValue : NumericKey → Rat → Prop
  | whole (i : Int) : HasValue (.whole i) i
  | part {x : Double} {p : Rat} (h : x.toRat? = some p) (hi : x.toInt? = none) : HasValue (.part x) p

theorem hasValue_numericKeyOfDouble {x : Double} {p : Rat} (h : x.toRat? = some p) :
    (numericKeyOfDouble x).HasValue p := by
  unfold numericKeyOfDouble
  cases hi : x.toInt? with
  | none => exact .part h hi
  | some i =>
    rw [(Double.toInt?_eq_some_iff h).1 hi]
    exact .whole i

/-- Numeric keys are the same exactly if they stand for one number. -/
theorem NumericKey.HasValue.eq_iff {k l : NumericKey} {p q : Rat} (hk : k.HasValue p)
    (hl : l.HasValue q) : k = l ↔ p = q := by
  cases hk with
  | whole i =>
    cases hl with
    | whole j => simp
    | part hy hnone =>
      refine iff_of_false (by simp) fun h => ?_
      rw [(Double.toInt?_eq_some_iff hy).2 h.symm] at hnone
      cases hnone
  | part hx hnone =>
    cases hl with
    | whole j =>
      refine iff_of_false (by simp) fun h => ?_
      rw [(Double.toInt?_eq_some_iff hx).2 h] at hnone
      cases hnone
    | part hy _ =>
      rw [NumericKey.part.injEq]
      constructor
      · rintro rfl
        exact Option.some.inj (hx.symm.trans hy)
      · rintro rfl
        refine Double.eq_of_toRat?_eq hx hy fun h0 => ?_
        rw [(Double.toInt?_eq_some_iff hx).2 (h0.trans Int.cast_zero.symm)] at hnone
        cases hnone

/-- A finite number is the key of its value, and no not-a-number. -/
theorem numericKey?_of_isNumber {a : Value} {x : Quantity} {p : Rat} (ha : a.isNumber = true)
    (hx : Quantity.ofValue? a = some x) (hp : x.rational? = some p) :
    (∃ k, a.numericKey? = some k ∧ k.HasValue p) ∧ a.isNan = false := by
  have ofDouble : ∀ d : Double, Quantity.double d = x → d.toRat? = some p ∧ ∀ mark, d ≠ .nan mark := by
    rintro d rfl
    refine ⟨hp, ?_⟩
    rintro mark rfl
    cases hp
  cases a with
  | int i =>
    obtain rfl : Quantity.int i = x := Option.some.inj hx
    obtain rfl : (i : Rat) = p := Option.some.inj hp
    exact ⟨⟨_, rfl, .whole i⟩, rfl⟩
  | float d =>
    obtain ⟨value, notNan⟩ := ofDouble d (Option.some.inj hx)
    refine ⟨⟨_, rfl, hasValue_numericKeyOfDouble value⟩, ?_⟩
    cases d <;> first | rfl | exact absurd rfl (notNan _)
  | scalar e i =>
    cases e <;> cases i <;> try cases ha
    rename_i d
    obtain ⟨value, notNan⟩ := ofDouble d (Option.some.inj hx)
    refine ⟨⟨_, rfl, hasValue_numericKeyOfDouble value⟩, ?_⟩
    cases d <;> first | rfl | exact absurd rfl (notNan _)
  | _ => cases ha

theorem ne_foreign_of_isNumber {a : Value} (ha : a.isNumber = true) (o : Foreign) : a ≠ .foreign o := by
  rintro rfl
  cases ha

theorem deepEqual_of_isNumber {a b : Value} (ha : a.isNumber = true) (hb : b.isNumber = true) :
    deepEqual a b = .ok (sameLeaf a b && !a.isNan) := by
  have sides : deepEqual a b = leafEquals a b ∧ sameKey a b = sameLeaf a b := by
    have family := (family_of_isNumber ha).trans (family_of_isNumber hb).symm
    cases a <;> first | exact ⟨if_pos family, rfl⟩ | cases ha
  rw [sides.1, leafEquals_of_not_foreign (ne_foreign_of_isNumber ha) (ne_foreign_of_isNumber hb), sides.2]

/-- **Deep equality of two finite numbers is equality of their values.** -/
theorem deepEqual_of_numbers {a b : Value} (ha : a.isNumber = true) (hb : b.isNumber = true)
    {x y : Quantity} (hx : Quantity.ofValue? a = some x) (hy : Quantity.ofValue? b = some y) {p q : Rat}
    (hp : x.rational? = some p) (hq : y.rational? = some q) : deepEqual a b = .ok (decide (p = q)) := by
  obtain ⟨⟨k, hk, kp⟩, notNan⟩ := numericKey?_of_isNumber ha hx hp
  obtain ⟨⟨l, hl, lq⟩, -⟩ := numericKey?_of_isNumber hb hy hq
  rw [deepEqual_of_isNumber ha hb, notNan, sameLeaf_of_keyClass (numericKey?_eq_some_iff.1 hk)
    (numericKey?_eq_some_iff.1 hl), Bool.not_false, Bool.and_true, beq_eq_decide]
  simp only [KeyClass.number.injEq, kp.eq_iff lq]

end Value

/-! ### Absolute bounds -/

namespace Quantity

/-- Rounding does not carry the distance of two numbers of given values across a bound. -/
def KeepsSide (x y : Quantity) (p q r : Rat) : Prop :=
  ∀ v w z, Rounded x y v w → IsNearest |v - w| z → (z.AtMost r ↔ |p - q| ≤ r)

/-- Nor does a distance move that is a double, between numbers that are doubles. -/
theorem keepsSide_of_representable {x y : Quantity} {p q : Rat} (hx : x.RoundsTo p) (hy : y.RoundsTo q)
    {d : Double} (hd : d.toRat? = some |p - q|) (r : Rat) : KeepsSide x y p q r := by
  intro v w z h hz
  obtain rfl : p = v := hx.unique h.left
  obtain rfl : q = w := hy.unique h.right
  simp [Double.AtMost, hz.toRat?_of_toRat? hd]

/-- Doubles of one number have one value. -/
theorem Rounded.eq_of_eq {x y : Quantity} {v w : Rat} (h : Rounded x y v w)
    (hxy : x.rational? = y.rational?) : v = w := by
  obtain ⟨p, d, hp, hd, hdv⟩ := h.left
  exact RoundsTo.unique ⟨p, d, hxy ▸ hp, hd, hdv⟩ h.right

/-- A rounded distance is at most zero exactly between doubles of one value. -/
theorem Rounded.atMost_zero_iff {x y : Quantity} {v w : Rat} (h : Rounded x y v w) {z : Double}
    (hz : IsNearest |v - w| z) : z.AtMost 0 ↔ v = w := by
  obtain ⟨-, d, -, -, hd⟩ := h.left
  obtain ⟨-, e, -, -, he⟩ := h.right
  rw [← Double.isNearest_sub_eq_zero_iff hd he hz]
  constructor
  · rintro ⟨u, hu, hle⟩
    rw [hu, le_antisymm hle (hz.toRat?_nonneg (abs_nonneg _) hu)]
  · intro h0
    exact ⟨0, h0, le_refl 0⟩

end Quantity

namespace Tolerance

open Quantity (Rounded KeepsSide)

section

variable {a b bound : Value} {x y t : Quantity} {p q r : Rat} (ha : Quantity.ofValue? a = some x)
  (hb : Quantity.ofValue? b = some y) (ht : Quantity.bound? bound = some t) (hp : x.rational? = some p)
  (hq : y.rational? = some q) (hr : t.rational? = some r)

include ha hb ht in
theorem within_plain : within (.plain bound) a b = .ok ((Quantity.distance x y).le t) := by
  simp only [within, Quantity.difference, ha, hb, atMost, ht]
  rfl

include ha hb ht hp hq hr in
/-- A plain bound decides by the exact distance, or else by the rounded one. -/
theorem within_plain_cases :
    ((∀ v w, ¬ Rounded x y v w) ∧ within (.plain bound) a b = .ok (decide (|p - q| ≤ r))) ∨
      ∃ v w z, Rounded x y v w ∧ IsNearest |v - w| z ∧
        ∃ c, within (.plain bound) a b = .ok c ∧ (c = true ↔ z.AtMost r) := by
  rw [within_plain ha hb ht]
  rcases Quantity.distance_cases hp hq (Quantity.isOperand_of_value ha) (Quantity.isOperand_of_value hb)
    with ⟨exact, distance⟩ | ⟨v, w, z, rounded, nearest, distance⟩
  · left
    exact ⟨exact, by rw [Quantity.le_of_exact distance hr]⟩
  · right
    refine ⟨v, w, z, rounded, nearest, _, rfl, ?_⟩
    rw [distance]
    exact Quantity.le_iff_atMost nearest hr

/-- **When an absolute bound decides like the exact distance.**  It does exactly if rounding, of
integers to doubles and of the difference of these, does not carry the distance across the bound; a
structure of the absolute bound decides like the plain bound.  A bound of zero accepts the pairs that
are deeply equal exactly if the two numbers do not become one double without being one number. -/
theorem within_exact_iff (ha : Quantity.ofValue? a = some x) (hb : Quantity.ofValue? b = some y)
    (ht : Quantity.bound? bound = some t) (hp : x.rational? = some p) (hq : y.rational? = some q)
    (hr : t.rational? = some r) :
    (within (.plain bound) a b = .ok (decide (|p - q| ≤ r)) ↔ KeepsSide x y p q r) ∧
    (∀ w fields, (Quantity.ofBound w).rational? = some r →
      within (.structured (some w) none fields) a b = within (.plain bound) a b) ∧
    (a.isNumber = true → b.isNumber = true → r = 0 →
      (within (.plain bound) a b = Value.deepEqual a b ↔ ∀ v w, Rounded x y v w → v = w → p = q)) := by
  have decided := within_plain_cases ha hb ht hp hq hr
  refine ⟨?_, ?_, ?_⟩
  · rcases decided with ⟨exact, hw⟩ | ⟨v, w, z, rounded, nearest, c, hw, hc⟩
    · exact iff_of_true hw fun v w _ h => absurd h (exact v w)
    · rw [hw, Except.ok.injEq, Bool.eq_iff_iff, hc, decide_eq_true_iff]
      constructor
      · -- The rounded distance has one value, whatever double it is.
        intro side v' w' z' rounded' nearest'
        obtain rfl := rounded.left.unique rounded'.left
        obtain rfl := rounded.right.unique rounded'.right
        rw [← side, Double.AtMost, Double.AtMost, nearest'.toRat?_eq nearest]
      · intro side
        exact side v w z rounded nearest
  · intro w fields hw
    exact (Value.within_plain_eq ht hr hw a b).symm
  · rintro na nb rfl
    rw [Value.deepEqual_of_numbers na nb ha hb hp hq]
    rcases decided with ⟨exact, hw⟩ | ⟨v, w, z, rounded, nearest, c, hw, hc⟩
    · refine iff_of_true ?_ fun v w h => absurd h (exact v w)
      rw [hw]
      simp only [abs_nonpos_iff, sub_eq_zero]
    · rw [hw, Except.ok.injEq, Bool.eq_iff_iff, hc, decide_eq_true_iff, rounded.atMost_zero_iff nearest]
      constructor
      · intro same v' w' rounded' heq
        obtain rfl := rounded.left.unique rounded'.left
        obtain rfl := rounded.right.unique rounded'.right
        exact same.1 heq
      · intro apart
        refine ⟨apart v w rounded, fun heq => rounded.eq_of_eq ?_⟩
        rw [hp, hq, heq]

end

/-- The double 2⁵³, past which not every integer is a double. -/
def wholeLimit : Double := .finite false ⟨1076 * binade, by decide⟩

theorem toRat?_wholeLimit : wholeLimit.toRat? = some 9007199254740992 := by decide +kernel

/-- The integer two past 2⁵³ is a double, and a bound of two accepts the pair. -/
theorem within_exact_iff_wholeLimit :
    KeepsSide (.int 9007199254740994) (.double wholeLimit) 9007199254740994 9007199254740992 2 ∧
      within (.plain (.int 2)) (.int 9007199254740994) (.float wholeLimit) = .ok true := by
  have left : (Quantity.int 9007199254740994).RoundsTo 9007199254740994 :=
    ⟨_, Double.ofInt 9007199254740994, rfl, Double.ofInt_isNearest _, by decide +kernel⟩
  have right := Quantity.roundsTo_double toRat?_wholeLimit
  have two : (Double.ofInt 2).toRat? = some |(9007199254740994 : Rat) - 9007199254740992| := by
    decide +kernel
  have side := Quantity.keepsSide_of_representable left right two 2
  have value := Quantity.rational?_double wholeLimit
  rw [toRat?_wholeLimit] at value
  have limit : Quantity.bound? (.int 2) = some (.int 2) := rfl
  have decided := (within_exact_iff (a := .int 9007199254740994) (b := .float wholeLimit) rfl rfl limit
    rfl value rfl).1.2 side
  refine ⟨side, decided.trans ?_⟩
  norm_num

/-- The integer one past 2⁵³ becomes the double 2⁵³: a bound of zero accepts the pair, although the
numbers are one apart and not deeply equal. -/
theorem within_merged :
    within (.plain (.int 0)) (.int 9007199254740993) (.float wholeLimit) = .ok true ∧
      Value.deepEqual (.int 9007199254740993 : Value) (.float wholeLimit) = .ok false ∧
      wholeLimit.toRat? = some 9007199254740992 ∧
      ¬ |(9007199254740993 : Rat) - 9007199254740992| ≤ 0 := by
  refine ⟨?_, ?_, toRat?_wholeLimit, ?_⟩
  · decide +kernel
  · decide +kernel
  · norm_num

end Tolerance

end Assay
