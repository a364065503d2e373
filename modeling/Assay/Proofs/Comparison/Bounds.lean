import Assay.Proofs.Comparison.Distance

/-!
# Bounds of a structured tolerance

A structure accepts a pair of numbers when one of its bounds is at least their distance; the relative one is
first multiplied by the magnitude of the second number, in doubles or, beyond their range, exactly.

* `Quantity.le_trans`, `Quantity.le_of_isNearest` — order of quantities, and rounding keeps it;
* `Quantity.scaled_cases` — a share of a number is a product of doubles, or exact;
* `Quantity.exists_scaled_le`, `Quantity.exists_zero_le_scaled` — it grows with the factor, from zero on;
* `Quantity.scaled_eq_error_iff` — when it is no quantity;
* `Quantity.distance_eq_zero` — equal numbers are at distance zero;
* `Tolerance.within_structured_iff`, `Tolerance.within_structured_eq_error_iff` — what the bounds decide.
-/

namespace Assay

open Double (IsNearest)

namespace Double

theorem toRat?_abs {x : Double} {p : Rat} (h : x.toRat? = some p) : x.abs.toRat? = some |p| := by
  obtain ⟨s, m, rfl, rfl⟩ := exists_finite_of_toRat? h
  have units : (0 : Rat) ≤ unitsOfRank m := Nat.cast_nonneg _
  have value : abs (.finite s m) = .finite false m := rfl
  rw [value, toRat?_finite, abs_div, abs_of_pos oneUnits_cast_pos]
  cases s <;> simp [signedUnits]

/-- An infinity times a double that is not negative. -/
theorem infinite_mul {f : Double} {r : Rat} (hf : f.toRat? = some r) (h0 : 0 ≤ r) :
    (infinite false).mul f = if r = 0 then .nan 0 else .infinite false := by
  obtain ⟨s, m, rfl, rfl⟩ := exists_finite_of_toRat? hf
  have zero : (signedUnits s m : Rat) / oneUnits = 0 ↔ m.val = 0 := by
    rw [div_eq_zero_iff, or_iff_left (ne_of_gt oneUnits_cast_pos), Int.cast_eq_zero,
      ← Int.natAbs_eq_zero, natAbs_signedUnits, unitsOfRank_eq_zero_iff]
  by_cases hm : m.val = 0
  · rw [if_pos (zero.2 hm)]
    exact if_pos hm
  · rw [if_neg (mt zero.1 hm)]
    cases s with
    | false => exact if_neg hm
    | true => exact absurd (le_antisymm (hasSign_signedUnits true m) h0) (mt zero.1 hm)

end Double

namespace Quantity

/-! ### Order -/

theorem le_trans {x y z : Quantity} (h : x.le y = true) (h' : y.le z = true) : x.le z = true := by
  unfold le at *
  cases hx : x.rational? <;> cases hy : y.rational? <;> cases hz : z.rational? <;>
    simp only [hx, hy, hz, beq_iff_eq, decide_eq_true_eq, Bool.or_eq_true, Bool.and_eq_true,
      Bool.not_eq_true'] at h h' ⊢
  case some.some.some => exact h.trans h'
  all_goals grind [isNan]

/-- Order is told by values. -/
theorem le_congr_left {x y z : Quantity} {p : Rat} (hx : x.rational? = some p) (hy : y.rational? = some p) :
    x.le z = y.le z := by
  unfold le
  rw [hx, hy]
  cases z.rational? <;> rfl

theorem le_infinite {x : Quantity} (h : ∀ k, x ≠ .double (.nan k)) :
    x.le (.double (.infinite false)) = true := by
  have none : rational? (.double (.infinite false)) = none := rfl
  have number : x.isNan = false := by
    unfold isNan
    split
    · exact absurd rfl (h _)
    · rfl
  cases hx : x.rational? <;> simp [le, hx, none, number]

/-- Rounding keeps the order of what is not negative. -/
theorem le_of_isNearest {v w : Rat} {x y : Double} (hv : 0 ≤ v) (hvw : v ≤ w) (hx : IsNearest v x)
    (hy : IsNearest w y) : (double x).le (.double y) = true := by
  obtain ⟨r, hr, hxr⟩ := hx.exists_rank hv
  obtain ⟨s, hs, hys⟩ := hy.exists_rank (hv.trans hvw)
  have ranks : r ≤ s := hr.le (mul_le_mul_of_nonneg_right hvw (le_of_lt Double.oneUnits_cast_pos)) hs
  rcases hys with ⟨finite, valueY⟩ | ⟨-, rfl⟩
  · rcases hxr with ⟨-, valueX⟩ | ⟨beyond, -⟩
    · rw [le_of_exact ((rational?_double x).trans valueX) ((rational?_double y).trans valueY),
        decide_eq_true_iff, div_le_div_iff_of_pos_right Double.oneUnits_cast_pos]
      exact_mod_cast Double.unitsOfRank_mono ranks
    · omega
  · exact le_infinite fun k hk => hx.ne_nan k (Quantity.double.inj hk)

/-- A number can be subtracted. -/
theorem exists_ofValue?_of_isNumber {v : Value} (h : v.isNumber = true) : ∃ x, ofValue? v = some x := by
  unfold Value.isNumber at h
  unfold ofValue?
  split at h
  · rename_i i hi
    exact ⟨.int i, by rw [hi]⟩
  · rename_i x hx
    exact ⟨.double x, by rw [hx]⟩
  · cases h

/-! ### Shares of a number -/

/-- What the magnitude of a number can be as a double: nothing negative, and finite for a finite number. -/
inductive IsMagnitude : Quantity → Double → Prop
  | nan (k : Nat) : IsMagnitude (.double (.nan k)) (.nan k)
  | infinite (s : Bool) : IsMagnitude (.double (.infinite s)) (.infinite false)
  | finite {x : Quantity} {m : Double} {p v : Rat} (hx : x.rational? = some p) (hm : m.toRat? = some v)
      (hv : 0 ≤ v) : IsMagnitude x m

section

variable {b : Value} {x : Quantity} {f g : Double} {r r' : Rat}

theorem isMagnitude_abs (x : Double) : IsMagnitude (.double x) x.abs := by
  cases x with
  | nan k => exact .nan k
  | infinite s => exact .infinite s
  | finite s m =>
    have value := Double.toRat?_finite s m
    exact .finite ((rational?_double _).trans value) (Double.toRat?_abs value) (abs_nonneg _)

theorem isMagnitude_int {i : Int} {m : Double} (h : doubleOfInt? i.natAbs = some m) :
    IsMagnitude (.int i) m := by
  obtain ⟨v, hv, p, d, hp, hd, hdv⟩ := roundsTo_int h
  obtain rfl : ((i.natAbs : Int) : Rat) = p := Option.some.inj hp
  exact .finite (rational?_int i) hv (hd.toRat?_nonneg (by positivity) hdv)

theorem scaled_int {i : Int} (hb : ofValue? b = some (.int i)) : scaled b (.float f) =
    (doubleOfInt? i.natAbs).elim (scaledBeyond i f) fun m => .ok (.double (m.mul f)) := by
  unfold scaled
  rw [hb]

/-- A share of a number by a double is that of its magnitude as a double; an integer beyond the range of
doubles has none. -/
theorem scaled_cases (hb : ofValue? b = some x) :
    (∃ m, IsMagnitude x m ∧ ∀ f, scaled b (.float f) = .ok (.double (m.mul f))) ∨
      ∃ i, x = .int i ∧ doubleOfInt? i.natAbs = none ∧ ∀ f, scaled b (.float f) = scaledBeyond i f := by
  rcases isOperand_of_value hb with ⟨i, rfl⟩ | ⟨d, rfl⟩
  · have share := fun f => scaled_int (f := f) hb
    cases hd : doubleOfInt? i.natAbs with
    | some m =>
      simp only [hd, Option.elim_some] at share
      exact Or.inl ⟨m, isMagnitude_int hd, share⟩
    | none =>
      simp only [hd, Option.elim_none] at share
      exact Or.inr ⟨i, rfl, hd, share⟩
  · refine Or.inl ⟨d.abs, isMagnitude_abs d, fun f => ?_⟩
    unfold scaled
    rw [hb]

/-- A share by an integer is exact for an integer; a double is multiplied in doubles, if the integer has
one. -/
theorem scaled_int_cases (hb : ofValue? b = some x) :
    (∃ i, x = .int i ∧ ∀ k, scaled b (.int k) = .ok (.int (i.natAbs * k))) ∨
      ∃ d, x = .double d ∧ ∀ k, scaled b (.int k) =
        (doubleOfInt? k).elim (beyondScaled k d.abs) fun g => .ok (.double (d.abs.mul g)) := by
  rcases isOperand_of_value hb with ⟨i, rfl⟩ | ⟨d, rfl⟩
  · refine Or.inl ⟨i, rfl, fun k => ?_⟩
    unfold scaled
    rw [hb]
  · refine Or.inr ⟨d, rfl, fun k => ?_⟩
    unfold scaled
    rw [hb]

theorem scaledBeyond_of_toRat? {i : Int} (hf : f.toRat? = some r) :
    scaledBeyond i f = .ok (.ratio (i.natAbs * r)) := by
  obtain ⟨s, m, rfl, -⟩ := Double.exists_finite_of_toRat? hf
  rw [scaledBeyond, hf, Option.getD_some]

theorem beyondScaled_of_toRat? {k : Int} {m : Double} {v : Rat} (hm : m.toRat? = some v) :
    beyondScaled k m = .ok (.ratio (v * k)) := by
  obtain ⟨s, m, rfl, -⟩ := Double.exists_finite_of_toRat? hm
  rw [beyondScaled, hm, Option.getD_some]

/-- A product with a larger factor is larger, unless it is no number. -/
theorem mul_le_mul {m : Double} (hm : IsMagnitude x m) (hf : f.toRat? = some r) (hg : g.toRat? = some r')
    (h0 : 0 ≤ r) (hr : r ≤ r') :
    (∃ k, m.mul f = .nan k) ∨ (double (m.mul f)).le (.double (m.mul g)) = true := by
  cases hm with
  | nan k => exact Or.inl ⟨k, rfl⟩
  | infinite s =>
    rw [Double.infinite_mul hf h0, Double.infinite_mul hg (h0.trans hr)]
    by_cases zero : r = 0
    · exact Or.inl ⟨0, if_pos zero⟩
    · have positive : r' ≠ 0 := fun h => zero (le_antisymm (h ▸ hr) h0)
      rw [if_neg zero, if_neg positive]
      exact Or.inr (le_infinite (by simp))
  | finite hx hm hv =>
    exact Or.inr (le_of_isNearest (mul_nonneg hv h0) (mul_le_mul_of_nonneg_left hr hv)
      (Double.mul_isNearest hm hf) (Double.mul_isNearest hm hg))

/-- A product with a larger factor accepts what one with a smaller factor accepts. -/
theorem le_mul_of_le {m : Double} (hm : IsMagnitude x m) (hf : f.toRat? = some r) (hg : g.toRat? = some r')
    (h0 : 0 ≤ r) (hr : r ≤ r') {d : Quantity} (hd : d.le (.double (m.mul f)) = true) :
    d.le (.double (m.mul g)) = true := by
  rcases mul_le_mul hm hf hg h0 hr with ⟨k, nan⟩ | larger
  · rw [nan, le_nan] at hd
    cases hd
  · exact le_trans hd larger

/-- A larger double as factor accepts what a smaller one accepts. -/
theorem exists_scaled_le_double (hb : ofValue? b = some x) (hf : f.toRat? = some r)
    (hg : g.toRat? = some r') (h0 : 0 ≤ r) (hr : r ≤ r') :
    ∃ q q', scaled b (.float f) = .ok q ∧ scaled b (.float g) = .ok q' ∧
      ∀ d : Quantity, d.le q = true → d.le q' = true := by
  rcases scaled_cases hb with ⟨m, hm, share⟩ | ⟨i, -, -, share⟩
  · exact ⟨_, _, share f, share g, fun d => le_mul_of_le hm hf hg h0 hr⟩
  · rw [share, share, scaledBeyond_of_toRat? hf, scaledBeyond_of_toRat? hg]
    refine ⟨_, _, rfl, rfl, fun d hd => le_trans hd ?_⟩
    rw [le_of_exact (rational?_ratio _) (rational?_ratio _), decide_eq_true_iff]
    exact mul_le_mul_of_nonneg_left hr (by positivity)

/-- The doubles of integers are in the order of the integers. -/
theorem toRat?_of_doubleOfInt? {i j : Int} (hf : doubleOfInt? i = some f) (hg : doubleOfInt? j = some g)
    (h0 : 0 ≤ i) (hij : i ≤ j) :
    ∃ r r', f.toRat? = some r ∧ g.toRat? = some r' ∧ 0 ≤ r ∧ r ≤ r' := by
  obtain ⟨r, hr, p, d, hp, hd, hdr⟩ := roundsTo_int hf
  obtain ⟨r', hr', p', d', hp', hd', hdr'⟩ := roundsTo_int hg
  obtain rfl : (i : Rat) = p := Option.some.inj hp
  obtain rfl : (j : Rat) = p' := Option.some.inj hp'
  have least : (0 : Rat) ≤ i := by exact_mod_cast h0
  have ordered : (i : Rat) ≤ j := by exact_mod_cast hij
  refine ⟨r, r', hr, hr', hd.toRat?_nonneg least hdr, ?_⟩
  have rounded := le_of_isNearest least ordered hd hd'
  rwa [le_of_exact ((rational?_double d).trans hdr) ((rational?_double d').trans hdr'),
    decide_eq_true_iff] at rounded

/-- A larger integer as factor accepts what a smaller one accepts, if doubles can hold both. -/
theorem exists_scaled_le_int {i j : Int} (hb : ofValue? b = some x) (hf : doubleOfInt? i = some f)
    (hg : doubleOfInt? j = some g) (h0 : 0 ≤ i) (hij : i ≤ j) :
    ∃ q q', scaled b (.int i) = .ok q ∧ scaled b (.int j) = .ok q' ∧
      ∀ d : Quantity, d.le q = true → d.le q' = true := by
  rcases scaled_int_cases hb with ⟨n, -, share⟩ | ⟨d, -, share⟩
  · refine ⟨_, _, share i, share j, fun d hd => le_trans hd ?_⟩
    rw [le_of_exact (rational?_int _) (rational?_int _), decide_eq_true_iff]
    exact_mod_cast mul_le_mul_of_nonneg_left hij (abs_nonneg n)
  · obtain ⟨r, r', hr, hr', least, ordered⟩ := toRat?_of_doubleOfInt? hf hg h0 hij
    rw [share, share, hf, hg]
    exact ⟨_, _, rfl, rfl, fun _ => le_mul_of_le (isMagnitude_abs d) hr hr' least ordered⟩

/-- Two factors with which one number is multiplied in the same way: doubles, or integers that doubles can
hold. -/
inductive SameKind : Bound → Bound → Prop
  | double (x y : Double) : SameKind (.float x) (.float y)
  | int {i j : Int} {f g : Double} (hf : doubleOfInt? i = some f) (hg : doubleOfInt? j = some g) :
      SameKind (.int i) (.int j)

/-- **A larger factor of the same kind accepts what a smaller one accepts.** -/
theorem exists_scaled_le {u v : Bound} (hb : ofValue? b = some x) (kind : SameKind u v)
    (hu : (ofBound u).rational? = some r) (hv : (ofBound v).rational? = some r') (h0 : 0 ≤ r)
    (hr : r ≤ r') :
    ∃ q q', scaled b u = .ok q ∧ scaled b v = .ok q' ∧ ∀ d : Quantity, d.le q = true → d.le q' = true := by
  cases kind with
  | double f g => exact exists_scaled_le_double hb hu hv h0 hr
  | int hf hg =>
    obtain rfl := Option.some.inj hu
    obtain rfl := Option.some.inj hv
    exact exists_scaled_le_int hb hf hg (by exact_mod_cast h0) (by exact_mod_cast hr)

/-- A product of what is not negative is not below zero. -/
theorem zero_le_mul {m : Double} {v : Rat} (hm : m.toRat? = some v) (hv : 0 ≤ v) (hf : f.toRat? = some r)
    (h0 : 0 ≤ r) {d : Quantity} (hd : d.rational? = some 0) : d.le (.double (m.mul f)) = true := by
  have zero : Double.zero.toRat? = some 0 := Double.toRat?_zero
  rw [le_congr_left hd ((rational?_double _).trans zero)]
  exact le_of_isNearest (le_refl 0) (mul_nonneg hv h0) (Double.isNearest_self zero)
    (Double.mul_isNearest hm hf)

theorem exists_zero_le_scaled_double {p : Rat} (hb : ofValue? b = some x) (hx : x.rational? = some p)
    (hf : f.toRat? = some r) (h0 : 0 ≤ r) :
    ∃ q, scaled b (.float f) = .ok q ∧ ∀ d : Quantity, d.rational? = some 0 → d.le q = true := by
  rcases scaled_cases hb with ⟨m, hm, share⟩ | ⟨i, -, -, share⟩
  · refine ⟨_, share f, fun d hd => ?_⟩
    cases hm with
    | nan k => cases hx
    | infinite s => cases hx
    | finite _ hm hv => exact zero_le_mul hm hv hf h0 hd
  · rw [share, scaledBeyond_of_toRat? hf]
    refine ⟨_, rfl, fun d hd => ?_⟩
    rw [le_of_exact hd (rational?_ratio _), decide_eq_true_iff]
    exact mul_nonneg (by positivity) h0

theorem exists_zero_le_scaled_int {p : Rat} {k : Int} (hb : ofValue? b = some x)
    (hx : x.rational? = some p) (h0 : 0 ≤ k) :
    ∃ q, scaled b (.int k) = .ok q ∧ ∀ d : Quantity, d.rational? = some 0 → d.le q = true := by
  have least : (0 : Rat) ≤ k := by exact_mod_cast h0
  rcases scaled_int_cases hb with ⟨n, -, share⟩ | ⟨y, rfl, share⟩
  · refine ⟨_, share k, fun d hd => ?_⟩
    rw [le_of_exact hd (rational?_int _), decide_eq_true_iff]
    exact_mod_cast mul_nonneg (abs_nonneg n) h0
  · have value := Double.toRat?_abs ((rational?_double y).symm.trans hx)
    rw [share]
    cases hg : doubleOfInt? k with
    | some g =>
      obtain ⟨r, -, hr, -, hr0, -⟩ := toRat?_of_doubleOfInt? hg hg h0 (le_refl k)
      exact ⟨_, rfl, fun d hd => zero_le_mul value (abs_nonneg p) hr hr0 hd⟩
    | none =>
      rw [Option.elim_none, beyondScaled_of_toRat? value]
      refine ⟨_, rfl, fun d hd => ?_⟩
      rw [le_of_exact hd (rational?_ratio _), decide_eq_true_iff]
      exact mul_nonneg (abs_nonneg p) least

/-- A share of a finite number is not below zero. -/
theorem exists_zero_le_scaled {p : Rat} {u : Bound} (hb : ofValue? b = some x) (hx : x.rational? = some p)
    (hu : (ofBound u).rational? = some r) (h0 : 0 ≤ r) :
    ∃ q, scaled b u = .ok q ∧ ∀ d : Quantity, d.rational? = some 0 → d.le q = true := by
  cases u with
  | float f => exact exists_zero_le_scaled_double hb hx hu h0
  | int k =>
    obtain rfl := Option.some.inj hu
    exact exists_zero_le_scaled_int hb hx (by exact_mod_cast h0)

theorem scaledBeyond_eq_error_iff {i : Int} {e : Fault} : scaledBeyond i f = .error e ↔
    (∃ k, f = .nan k) ∧ e = .nanRatio ∨ (∃ s, f = .infinite s) ∧ e = .infiniteRatio := by
  cases f <;> simp [scaledBeyond, eq_comm]

/-- **A share by a double fails exactly if it is that of an integer beyond the range of doubles and the
factor is not finite.** -/
theorem scaled_eq_error_iff (hb : ofValue? b = some x) {e : Fault} : scaled b (.float f) = .error e ↔
    (∃ i, x = .int i ∧ doubleOfInt? i.natAbs = none) ∧
      ((∃ k, f = .nan k) ∧ e = .nanRatio ∨ (∃ s, f = .infinite s) ∧ e = .infiniteRatio) := by
  constructor
  · intro he
    rcases scaled_cases hb with ⟨m, -, share⟩ | ⟨i, hx, beyond, share⟩
    · rw [share] at he
      cases he
    · rw [share] at he
      exact ⟨⟨i, hx, beyond⟩, scaledBeyond_eq_error_iff.1 he⟩
  · rintro ⟨⟨i, rfl, beyond⟩, he⟩
    rw [scaled_int hb, beyond]
    exact scaledBeyond_eq_error_iff.2 he

end

/-! ### The distance of equal numbers -/

/-- Two numbers of one value are at distance zero. -/
theorem distance_eq_zero {x y : Quantity} {p : Rat} (hx : x.rational? = some p) (hy : y.rational? = some p)
    (ox : x.IsOperand) (oy : y.IsOperand) : (distance x y).rational? = some 0 := by
  rcases distance_cases hx hy ox oy with ⟨-, exact⟩ | ⟨v, w, z, rounded, nearest, distance⟩
  · rw [exact, sub_self, abs_zero]
  · obtain rfl := rounded.eq_of_eq (hx.trans hy.symm)
    rw [sub_self, abs_zero] at nearest
    rw [distance, rational?_double]
    exact nearest.toRat?_of_toRat? Double.toRat?_zero

end Quantity

/-! ### Bounds of a structure -/

namespace Tolerance

open Quantity (ofValue? distance scaled)

/-- The bounds of a structure accept a number at some distance: there are none, or one of them is enough. -/
inductive Accepts (abs rel : Option Bound) (b : Value) (d : Quantity) : Prop
  | unbounded (ha : abs = none) (hr : rel = none)
  | abs {x : Bound} (ha : abs = some x) (hd : d.le (.ofBound x) = true)
  | rel {f : Bound} {q : Quantity} (hr : rel = some f) (hq : scaled b f = .ok q) (hd : d.le q = true)

section

variable {a b : Value} {x y : Quantity} {abs rel : Option Bound} {fields : List (String × Tolerance)}
  (ha : ofValue? a = some x) (hb : ofValue? b = some y)

include ha hb in
/-- Bounds that are there decide one after the other. -/
theorem within_structured (h : abs.isSome ∨ rel.isSome) : within (.structured abs rel fields) a b =
    if abs.any fun r => (distance x y).le (.ofBound r) then .ok true
    else rel.elim (.ok false) fun f => (scaled b f).map fun q => (distance x y).le q := by
  have difference : Quantity.difference a b = .ok (distance x y) := by
    rw [Quantity.difference, ha, hb]
  generalize distance x y = d at difference ⊢
  cases abs with
  | none =>
    cases rel with
    | none => simp at h
    | some f =>
      cases hs : scaled b f <;>
        simp [within, difference, hs, bind, Except.bind, pure, Except.pure, Except.map]
  | some r =>
    cases hd : d.le (.ofBound r) with
    | true => simp [within, difference, hd, bind, Except.bind, pure, Except.pure]
    | false =>
      cases rel with
      | none => simp [within, difference, hd, bind, Except.bind, pure, Except.pure]
      | some f =>
        cases hs : scaled b f <;>
          simp [within, difference, hd, hs, bind, Except.bind, pure, Except.pure, Except.map]

include ha hb in
/-- **A structure accepts a pair of numbers exactly if its bounds accept their distance.** -/
theorem within_structured_iff :
    within (.structured abs rel fields) a b = .ok true ↔ Accepts abs rel b (distance x y) := by
  by_cases bounded : abs.isSome ∨ rel.isSome
  · rw [within_structured ha hb bounded]
    by_cases near : abs.any (fun r => (distance x y).le (.ofBound r)) = true
    · rw [if_pos near]
      obtain ⟨r, hr, hd⟩ := (Option.any_eq_true _ _).1 near
      exact iff_of_true rfl (.abs hr hd)
    · rw [if_neg near]
      have far : ∀ r, abs = some r → (distance x y).le (.ofBound r) ≠ true := fun r hr hd =>
        near ((Option.any_eq_true _ _).2 ⟨r, hr, hd⟩)
      constructor
      · intro h
        cases rel with
        | none => cases h
        | some f =>
          obtain ⟨q, hq, hd⟩ := map_eq_ok_iff.1 h
          exact .rel rfl hq hd
      · intro h
        cases h with
        | unbounded ha hr => simp [ha, hr] at bounded
        | abs hr hd => exact absurd hd (far _ hr)
        | rel hr hq hd =>
          rw [hr]
          exact map_eq_ok_iff.2 ⟨_, hq, hd⟩
  · obtain ⟨rfl, rfl⟩ : abs = none ∧ rel = none := by simpa using bounded
    exact iff_of_true rfl (.unbounded rfl rfl)

include ha hb in
/-- **A structure fails at a pair of numbers exactly if no absolute bound accepts it and the share of the
relative one fails.** -/
theorem within_structured_eq_error_iff {e : Fault} :
    within (.structured abs rel fields) a b = .error e ↔
      (∀ r, abs = some r → (distance x y).le (.ofBound r) = false) ∧
        ∃ f, rel = some f ∧ scaled b f = .error e := by
  cases rel with
  | none =>
    refine iff_of_false ?_ (by simp)
    cases abs with
    | none => simp [within]
    | some r =>
      rw [within_structured ha hb (Or.inl rfl)]
      split <;> simp
  | some f =>
    have share : (scaled b f).map (fun q => (distance x y).le q) = .error e ↔ scaled b f = .error e := by
      cases scaled b f <;> simp [Except.map]
    have far : abs.any (fun r => (distance x y).le (.ofBound r)) = false ↔
        ∀ r, abs = some r → (distance x y).le (.ofBound r) = false := by
      cases abs <;> simp
    rw [within_structured ha hb (Or.inr rfl), ← far]
    cases abs.any fun r => (distance x y).le (.ofBound r) with
    | true => simp
    | false => simpa using share

end

end Tolerance

end Assay
