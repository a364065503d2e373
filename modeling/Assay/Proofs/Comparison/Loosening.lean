import Assay.Proofs.Comparison.Bounds
import Assay.Proofs.Comparison.Stepwise
import Assay.Proofs.Value.Occurs

/-!
# Looser tolerances

Approximate equality asks less than deep equality, and less under a larger tolerance.

* `Tolerance.IsFinite` — every bound is finite and not below zero;
* `approxEqual_of_deepEqual` — deeply equal values are approximately equal under each such tolerance that
  leads to all of their positions, and under no other one: there is then a key without a text;
* `Tolerance.AtMost` — one tolerance is at most another one, field by field;
* `Tolerance.SameKinds` — relative bounds that belong together are doubles, or integers that doubles can
  hold;
* `approxEqual_mono` — then the smaller tolerance accepts no more;
* `not_approxEqual_mono` — it may accept more if an integer stands against a double of its value.
-/

namespace Assay

open Value (Step Below IsLeafPair Leads)

/-- A bound that is finite and not below zero. -/
def Bound.IsFiniteLimit (x : Bound) : Prop := ∃ r, (Quantity.ofBound x).rational? = some r ∧ 0 ≤ r

namespace Tolerance

/-- Every bound that is there is finite and not below zero, at every depth of fields. -/
inductive IsFinite : Tolerance → Prop
  | plain {n : Value} {q : Quantity} {r : Rat} (hn : Quantity.bound? n = some q)
      (hq : q.rational? = some r) (h0 : 0 ≤ r) : IsFinite (.plain n)
  | structured {abs rel : Option Bound} {fields : List (String × Tolerance)}
      (habs : ∀ x, abs = some x → x.IsFiniteLimit) (hrel : ∀ x, rel = some x → x.IsFiniteLimit)
      (hfields : ∀ f ∈ fields, IsFinite f.2) : IsFinite (.structured abs rel fields)

/-- The bounds of one structure are at most those of another one: that has none, or else the first has
some, and each of them is there in the second and not smaller. -/
inductive BoundsAtMost (abs rel abs' rel' : Option Bound) : Prop
  | unbounded (ha : abs' = none) (hr : rel' = none)
  | bounds (h : abs.isSome ∨ rel.isSome)
      (ha : ∀ x, abs = some x → ∃ y, abs' = some y ∧ Quantity.le (.ofBound x) (.ofBound y) = true)
      (hr : ∀ x, rel = some x → ∃ y, rel' = some y ∧ Quantity.le (.ofBound x) (.ofBound y) = true)

/-- One tolerance is at most another one: numbers are, or the bounds of two structures and the tolerances
that they have for fields of the same names. -/
inductive AtMost : Tolerance → Tolerance → Prop
  | plain {m n : Value} {p q : Quantity} (hm : Quantity.bound? m = some p)
      (hn : Quantity.bound? n = some q) (h : p.le q = true) : AtMost (.plain m) (.plain n)
  | structured {abs rel abs' rel' : Option Bound} {fields fields' : List (String × Tolerance)}
      (bounds : BoundsAtMost abs rel abs' rel')
      (names : ∀ name, fields.lookup name = none ↔ fields'.lookup name = none)
      (hf : ∀ name u v, fields.lookup name = some u → fields'.lookup name = some v → AtMost u v) :
      AtMost (.structured abs rel fields) (.structured abs' rel' fields')

/-- At every depth the relative bounds that belong together multiply a number in the same way. -/
inductive SameKinds : Tolerance → Tolerance → Prop
  | plain (m n : Value) : SameKinds (.plain m) (.plain n)
  | structured {abs rel abs' rel' : Option Bound} {fields fields' : List (String × Tolerance)}
      (hr : ∀ x y, rel = some x → rel' = some y → Quantity.SameKind x y)
      (hf : ∀ name u v, fields.lookup name = some u → fields'.lookup name = some v → SameKinds u v) :
      SameKinds (.structured abs rel fields) (.structured abs' rel' fields')

/-! ### Tolerances under a key -/

variable {s t u : Tolerance} {k : Value}

theorem IsFinite.step (ht : t.IsFinite) (h : t.step (.key k) = some u) : u.IsFinite := by
  rcases step_key_cases h with rfl | ⟨abs, rel, fields, rfl, name, hf⟩
  · exact ht
  · cases ht with
    | structured _ _ hfields => exact hfields _ hf

/-- Under a key the smaller of two tolerances stays the smaller one, and relative bounds of the same kind. -/
theorem AtMost.step (hst : s.AtMost t) (kinds : s.SameKinds t) (h : s.step (.key k) = some u) :
    ∃ v, t.step (.key k) = some v ∧ u.AtMost v ∧ u.SameKinds v := by
  cases hst with
  | plain hm hn hle =>
    cases h
    exact ⟨_, rfl, .plain hm hn hle, .plain _ _⟩
  | @structured abs rel abs' rel' fields fields' bounds names hf =>
    obtain ⟨⟩ | ⟨relKinds, fieldKinds⟩ := id kinds
    rw [Tolerance.step] at h ⊢
    split at h
    · rename_i name _
      refine ⟨_, rfl, ?_⟩
      cases h
      cases hu : fields.lookup name with
      | none =>
        rw [(names name).1 hu]
        exact ⟨.structured bounds names hf, kinds⟩
      | some u =>
        cases hv : fields'.lookup name with
        | none =>
          rw [(names name).2 hv] at hu
          cases hu
        | some v => exact ⟨hf name u v hu hv, fieldKinds name u v hu hv⟩
    · cases h

end Tolerance

/-! ### Numbers -/

namespace Value

/-- A number that is finite has a value. -/
theorem exists_rational?_of_isNumber {v : Value} (h : v.isNumber = true) (hv : ¬ v.HoldsNonFinite) :
    ∃ x p, Quantity.ofValue? v = some x ∧ x.rational? = some p := by
  unfold isNumber at h
  unfold Quantity.ofValue?
  split at h
  · rename_i i hi
    exact ⟨.int i, i, by rw [hi], rfl⟩
  · rename_i x hx
    have finite : x.isFinite ≠ false := fun infinite => hv ⟨v, .self v, x, hx, infinite⟩
    cases x with
    | finite s m =>
      have value := (Quantity.rational?_double _).trans (Double.toRat?_finite s m)
      exact ⟨.double (.finite s m), _, by rw [hx], value⟩
    | _ => exact absurd rfl finite
  · cases h

theorem Below.not_holdsNonFinite {a b x y : Value} {s : Step} (h : Below a b s x y)
    (ha : ¬ a.HoldsNonFinite) (hb : ¬ b.HoldsNonFinite) : ¬ x.HoldsNonFinite ∧ ¬ y.HoldsNonFinite := by
  cases h with
  | key hea heb hv hw =>
    obtain ⟨frozen, rfl⟩ := entries?_eq_some hea
    obtain ⟨frozen', rfl⟩ := entries?_eq_some heb
    obtain ⟨k', hm, -⟩ := mem_of_lookup hw
    exact ⟨fun ⟨z, hz, h⟩ => ha ⟨z, .map hv hz, h⟩, fun ⟨z, hz, h⟩ => hb ⟨z, .map hm hz, h⟩⟩
  | item hia hib hv hw =>
    have hx := List.mem_of_getElem? hv
    have hy := List.mem_of_getElem? hw
    constructor
    · rintro ⟨z, hz, h⟩
      rcases items?_eq_some hia with rfl | rfl
      · exact ha ⟨z, .list hx hz, h⟩
      · exact ha ⟨z, .tuple hx hz, h⟩
    · rintro ⟨z, hz, h⟩
      rcases items?_eq_some hib with rfl | rfl
      · exact hb ⟨z, .list hy hz, h⟩
      · exact hb ⟨z, .tuple hy hz, h⟩

/-- A tolerance that leads to all positions of two values does so one step further. -/
theorem Leads.below {t : Tolerance} {a b x y : Value} {s : Step} (h : Leads t a b) (hs : Below a b s x y) :
    ∃ u, t.step s = some u ∧ Leads u x y := by
  obtain ⟨u₁, hu₁⟩ := Option.isSome_iff_exists.1 (h [s] x y (.step hs (.here x y)))
  obtain ⟨u, hu, -⟩ := Option.bind_eq_some_iff.1 hu₁
  refine ⟨u, hu, fun p v w m => ?_⟩
  have next := h (s :: p) v w (.step hs m)
  rwa [Tolerance.along, walk, hu] at next

/-- A tolerance under which values agree leads to all of their positions. -/
theorem leads_of_approxEqual {t : Tolerance} {a b : Value} (h : approxEqual t a b = .ok true) :
    Leads t a b := by
  intro p x y m
  obtain ⟨u, hu, -⟩ := approxEqual_of_meets h m
  rw [hu]
  rfl

end Value

namespace Tolerance

open Quantity (ofValue? distance)

variable {a b : Value} {x y : Quantity} {s t : Tolerance} {p : Rat}

/-- Equal numbers are within every finite tolerance. -/
theorem IsFinite.within_of_eq (ht : t.IsFinite) (ha : ofValue? a = some x) (hb : ofValue? b = some y)
    (hx : x.rational? = some p) (hy : y.rational? = some p) : t.within a b = .ok true := by
  have zero := Quantity.distance_eq_zero hx hy (Quantity.isOperand_of_value ha)
    (Quantity.isOperand_of_value hb)
  cases ht with
  | plain hn hq h0 =>
    rw [within_plain ha hb hn, Quantity.le_of_exact zero hq, decide_eq_true h0]
  | @structured abs rel fields habs hrel _ =>
    rw [within_structured_iff ha hb]
    cases abs with
    | some r =>
      obtain ⟨v, hv, h0⟩ := habs r rfl
      refine .abs rfl ?_
      rw [Quantity.le_of_exact zero hv, decide_eq_true h0]
    | none =>
      cases rel with
      | some f =>
        obtain ⟨v, hv, h0⟩ := hrel f rfl
        obtain ⟨q, hq, least⟩ := Quantity.exists_zero_le_scaled hb hy hv h0
        exact .rel rfl hq (least _ zero)
      | none => exact .unbounded rfl rfl

/-- What bounds accept, larger ones do. -/
theorem BoundsAtMost.accepts {abs rel abs' rel' : Option Bound} {d : Quantity}
    (h : BoundsAtMost abs rel abs' rel') (kinds : ∀ f g, rel = some f → rel' = some g → Quantity.SameKind f g)
    (hb : ofValue? b = some y) (hrel : ∀ f, rel = some f → f.IsFiniteLimit) (hrel' : ∀ f, rel' = some f → f.IsFiniteLimit)
    (hd : Accepts abs rel b d) : Accepts abs' rel' b d := by
  cases h with
  | unbounded ha hr => exact .unbounded ha hr
  | bounds some ha hr =>
    cases hd with
    | unbounded ha' hr' => simp [ha', hr'] at some
    | abs hx hd =>
      obtain ⟨z, hz, hle⟩ := ha _ hx
      exact .abs hz (Quantity.le_trans hd hle)
    | rel hf hq hd =>
      obtain ⟨g, hg, hle⟩ := hr _ hf
      obtain ⟨r, hr, h0⟩ := hrel _ hf
      obtain ⟨r', hr', -⟩ := hrel' _ hg
      rw [Quantity.le_of_exact hr hr', decide_eq_true_iff] at hle
      obtain ⟨q, q', hq₁, hq', wider⟩ := Quantity.exists_scaled_le hb (kinds _ g hf hg) hr hr' h0 hle
      obtain rfl := Except.ok.inj (hq₁.symm.trans hq)
      exact .rel hg hq' (wider _ hd)

/-- **A pair of numbers within a tolerance is within every larger one.** -/
theorem AtMost.within (h : s.AtMost t) (kinds : s.SameKinds t) (hs : s.IsFinite) (ht : t.IsFinite)
    (ha : a.isNumber = true) (hb : b.isNumber = true) (hw : s.within a b = .ok true) : t.within a b = .ok true := by
  obtain ⟨x, hx⟩ := Quantity.exists_ofValue?_of_isNumber ha
  obtain ⟨y, hy⟩ := Quantity.exists_ofValue?_of_isNumber hb
  cases h with
  | plain hm hn hle =>
    rw [within_plain hx hy hm, Except.ok.injEq] at hw
    rw [within_plain hx hy hn, Quantity.le_trans hw hle]
  | structured bounds _ _ =>
    cases hs with
    | structured _ hrel _ =>
      cases ht with
      | structured _ hrel' _ =>
        obtain ⟨⟩ | ⟨relKinds, -⟩ := kinds
        rw [within_structured_iff hx hy] at hw ⊢
        exact bounds.accepts relKinds hy hrel hrel' hw

end Tolerance

/-! ### Whole values -/

open Comparison (deep approx Refines)

/-- Deep equality refines approximate equality under finite tolerances, which fails only at a key that a
structure is led to and that has no text. -/
theorem Comparison.refines_deep_approx (t₀ : Tolerance) (a₀ b₀ : Value) :
    deep.Refines approx
      (fun _ t a b => t.IsFinite ∧ (¬ a.HoldsNonFinite ∧ ¬ b.HoldsNonFinite) ∧
        (Leads t₀ a₀ b₀ → Leads t a b))
      fun f => f = .longInteger ∧ ¬ Leads t₀ a₀ b₀ where
  item := by
    rintro s t a b x y i ⟨ht, finite, leads⟩ below
    refine ⟨ht, below.not_holdsNonFinite finite.1 finite.2, fun h => ?_⟩
    obtain ⟨u, hu, further⟩ := (leads h).below below
    cases hu
    exact further
  key := by
    rintro s _ t a b k x y ⟨ht, finite, leads⟩ below -
    cases hu : t.forKey k with
    | ok u =>
      have step := Tolerance.forKey_eq_ok_iff.1 hu
      refine Or.inl ⟨u, hu, ht.step step, below.not_holdsNonFinite finite.1 finite.2, fun h => ?_⟩
      obtain ⟨v, hv, further⟩ := (leads h).below below
      cases step.symm.trans hv
      exact further
    | error f =>
      refine Or.inr ⟨f, hu, (Tolerance.forKey_eq_error_iff.1 hu).2.2, fun h => ?_⟩
      obtain ⟨v, hv, -⟩ := (leads h).below below
      cases hu.symm.trans (Tolerance.forKey_eq_ok_iff.2 hv)
  leaf := by
    rintro s t a b ⟨ht, finite, -⟩ hl (equal : Value.deepEqual a b = .ok true)
    show Value.approxEqual t a b = .ok true
    by_cases numbers : a.isNumber = true ∧ b.isNumber = true
    · rw [Value.approxEqual_of_numbers numbers.1 numbers.2]
      obtain ⟨x, p, hx, hp⟩ := Value.exists_rational?_of_isNumber numbers.1 finite.1
      obtain ⟨y, q, hy, hq⟩ := Value.exists_rational?_of_isNumber numbers.2 finite.2
      rw [Value.deepEqual_of_numbers numbers.1 numbers.2 hx hy hp hq, Except.ok.injEq,
        decide_eq_true_iff] at equal
      exact ht.within_of_eq hx hy hp (equal ▸ hq)
    · rw [Value.approxEqual_of_leaves hl numbers]
      exact equal

namespace Value

variable {s t : Tolerance} {a b : Value}

/-- **Approximate equality only loosens deep equality.**  Deeply equal values whose numbers are finite are
approximately equal under every finite tolerance, if each key that a structure is led through has a text.
Otherwise, and only then, the comparison fails, because of the long integer in such a key. -/
theorem approxEqual_of_deepEqual (ht : t.IsFinite) (ha : ¬ a.HoldsNonFinite) (hb : ¬ b.HoldsNonFinite)
    (h : deepEqual a b = .ok true) :
    (approxEqual t a b = .ok true ↔ Leads t a b) ∧
      (approxEqual t a b = .error .longInteger ↔ ¬ Leads t a b) := by
  have refines := Comparison.refines_deep_approx t a b
  have settled : approxEqual t a b = .ok true ∨
      ∃ f, approxEqual t a b = .error f ∧ f = .longInteger ∧ ¬ Leads t a b :=
    refines.settles (s := ()) Comparison.isStepwise_deep Comparison.isStepwise_approx
      ⟨ht, ⟨ha, hb⟩, id⟩ h
  rcases settled with agrees | ⟨f, fails, rfl, astray⟩
  · have leads := leads_of_approxEqual agrees
    exact ⟨iff_of_true agrees leads, iff_of_false (by simp [agrees]) (not_not.2 leads)⟩
  · exact ⟨iff_of_false (by simp [fails]) astray, iff_of_true fails astray⟩

/-- An integer and the double of its value, under a relative bound and a bound for a field. -/
theorem approxEqual_of_deepEqual_field :
    let one : Double := .finite false ⟨1023 * binade, by decide⟩
    let t : Tolerance := .structured none (some (.float one)) [("x", .plain (.int 0))]
    let a : Value := .dict [(.str "x", .int 1), (.str "y", .float one)]
    let b : Value := .dict [(.str "y", .int 1), (.str "x", .float one)]
    (t.IsFinite ∧ ¬ a.HoldsNonFinite ∧ ¬ b.HoldsNonFinite ∧ deepEqual a b = .ok true) ∧
      approxEqual t a b = .ok true ∧ Leads t a b := by
  intro one t a b
  have unit : (Bound.float one).IsFiniteLimit := ⟨1, by decide +kernel, by norm_num⟩
  have zero : (Tolerance.plain (.int 0)).IsFinite := .plain (q := .int 0) rfl rfl (le_refl _)
  have finite : t.IsFinite :=
    .structured (by simp) (fun x hx => Option.some.inj hx ▸ unit) (by simpa using zero)
  have left : ¬ a.HoldsNonFinite := by
    rw [← isSpecial_iff]
    decide +kernel
  have right : ¬ b.HoldsNonFinite := by
    rw [← isSpecial_iff]
    decide +kernel
  have equal : deepEqual a b = .ok true := by decide +kernel
  have agrees : approxEqual t a b = .ok true := by decide +kernel
  have leads := (approxEqual_of_deepEqual finite left right equal).1.1 agrees
  exact ⟨⟨finite, left, right, equal⟩, agrees, leads⟩

theorem not_holdsNonFinite_keyedBy (i : Int) : ¬ (keyedBy i).HoldsNonFinite := by
  rw [keyedBy, holdsNonFinite_map]
  rintro ⟨e, he, x, hx, d, hd, -⟩
  cases List.mem_singleton.1 he
  cases hx
  cases hd

theorem deepEqual_keyedBy (i : Int) : deepEqual (keyedBy i) (keyedBy i) = .ok true := by
  have same : sameKey (.int i : Value) (.int i) = true := by
    rw [sameKey_int, beq_self_eq_true]
  rw [keyedBy, deepEqual_of_entries rfl rfl, ite_ok_iff, deepEntries_iff]
  refine ⟨by simp [sameKeySet, hasKey, same], fun k v hv => ?_⟩
  cases List.mem_singleton.1 hv
  exact ⟨.str "m", by rw [lookup, if_pos same], rfl⟩

/-- **A mapping with a long integer as a key is deeply equal to itself, but under a structure its comparison
with itself fails.** -/
theorem deepEqual_longKeyed :
    (Tolerance.structured none none []).IsFinite ∧ ¬ (keyedBy digitBound).HoldsNonFinite ∧
      deepEqual (keyedBy digitBound) (keyedBy digitBound) = .ok true ∧
        approxEqual (.structured none none []) (keyedBy digitBound) (keyedBy digitBound) =
          .error .longInteger := by
  have long : integerText digitBound = .error .longInteger := by
    rw [integerText, Int.natAbs_natCast, if_neg (Nat.lt_irrefl _)]
  have unbounded : (Tolerance.structured none none []).IsFinite :=
    .structured (by simp) (by simp) (by simp)
  exact ⟨unbounded, not_holdsNonFinite_keyedBy _, deepEqual_keyedBy _, (approxEqual_keyedBy long).2.2⟩

end Value

/-- Approximate equality under a tolerance refines that under a larger one. -/
theorem Comparison.refines_approx_approx :
    approx.Refines approx (fun s t _ _ => (s.AtMost t ∧ s.SameKinds t) ∧ s.IsFinite ∧ t.IsFinite)
      fun _ => False where
  item h _ := h
  key := by
    rintro s u t a b k x y ⟨⟨hst, kinds⟩, hs, ht⟩ - hu
    have stepS := Tolerance.forKey_eq_ok_iff.1 hu
    obtain ⟨v, stepT, huv⟩ := hst.step kinds stepS
    exact Or.inl ⟨v, Tolerance.forKey_eq_ok_iff.2 stepT, huv, hs.step stepS, ht.step stepT⟩
  leaf := by
    rintro s t a b ⟨⟨hst, kinds⟩, hs, ht⟩ hl (agrees : Value.approxEqual s a b = .ok true)
    show Value.approxEqual t a b = .ok true
    by_cases numbers : a.isNumber = true ∧ b.isNumber = true
    · rw [Value.approxEqual_of_numbers numbers.1 numbers.2] at agrees ⊢
      exact hst.within kinds hs ht numbers.1 numbers.2 agrees
    · rw [Value.approxEqual_of_leaves hl numbers] at agrees ⊢
      exact agrees

namespace Value

variable {s t : Tolerance} {a b : Value}

/-- **Approximate equality is monotone in the tolerance**, where relative bounds that belong together are of
the same kind. -/
theorem approxEqual_mono (hs : s.IsFinite) (ht : t.IsFinite) (hst : s.AtMost t) (kinds : s.SameKinds t)
    (h : approxEqual s a b = .ok true) : approxEqual t a b = .ok true := by
  have settled : approxEqual t a b = .ok true ∨ ∃ f, approxEqual t a b = .error f ∧ False :=
    Comparison.refines_approx_approx.settles Comparison.isStepwise_approx Comparison.isStepwise_approx
      ⟨⟨hst, kinds⟩, hs, ht⟩ h
  rcases settled with agrees | ⟨-, -, no⟩
  · exact agrees
  · exact no.elim

/-- A larger absolute bound and a larger relative one, and a larger bound for a field. -/
theorem approxEqual_mono_field :
    let one : Double := .finite false ⟨1023 * binade, by decide⟩
    let two : Double := .finite false ⟨1024 * binade, by decide⟩
    let s : Tolerance := .structured (some (.float one)) (some (.int 0)) [("x", .plain (.int 1))]
    let t : Tolerance := .structured (some (.int 2)) (some (.int 1)) [("x", .plain (.float two))]
    let a : Value := .dict [(.str "x", .int 3), (.str "y", .int 10)]
    let b : Value := .dict [(.str "y", .int 11), (.str "x", .int 4)]
    (s.IsFinite ∧ t.IsFinite ∧ s.AtMost t ∧ s.SameKinds t ∧ approxEqual s a b = .ok true) ∧
      approxEqual t a b = .ok true := by
  intro one two s t a b
  have unit : (Bound.float one).IsFiniteLimit := ⟨1, by decide +kernel, by norm_num⟩
  have integer (i : Nat) : (Bound.int i).IsFiniteLimit := ⟨i, rfl, by positivity⟩
  have small : (Tolerance.plain (.int 1)).IsFinite := .plain (q := .int 1) rfl rfl (by norm_num)
  have large : (Tolerance.plain (.float two)).IsFinite :=
    .plain (q := .double two) (r := 2) rfl (by decide +kernel) (by norm_num)
  have finite : s.IsFinite :=
    .structured (fun x hx => Option.some.inj hx ▸ unit) (fun x hx => Option.some.inj hx ▸ integer 0)
      (by simpa using small)
  have finite' : t.IsFinite :=
    .structured (fun x hx => Option.some.inj hx ▸ integer 2) (fun x hx => Option.some.inj hx ▸ integer 1)
      (by simpa using large)
  have field : (Tolerance.plain (.int 1)).AtMost (.plain (.float two)) :=
    .plain (p := .int 1) (q := .double two) rfl rfl (by decide +kernel)
  have named {name : String} {u v : Tolerance} (hu : List.lookup name [("x", u)] = some v) : v = u := by
    simp only [List.lookup_cons] at hu
    split at hu
    · exact (Option.some.inj hu).symm
    · cases hu
  have larger : s.AtMost t := by
    refine .structured (.bounds (Or.inl rfl) ?_ ?_) ?_ ?_
    · rintro x ⟨⟩
      exact ⟨.int 2, rfl, by decide +kernel⟩
    · rintro x ⟨⟩
      exact ⟨.int 1, rfl, by decide +kernel⟩
    · intro name
      simp only [List.lookup_cons]
      cases name == "x" <;> simp
    · intro name u v hu hv
      rw [named hu, named hv]
      exact field
  have kinds : s.SameKinds t := by
    refine .structured ?_ fun name u v hu hv => ?_
    · rintro x y ⟨⟩ ⟨⟩
      exact .int (f := .zero) (g := one) (by decide +kernel) (by decide +kernel)
    · rw [named hu, named hv]
      exact .plain _ _
  have agrees : approxEqual s a b = .ok true := by decide +kernel
  exact ⟨⟨finite, finite', larger, kinds, agrees⟩, approxEqual_mono finite finite' larger kinds agrees⟩

/-- **An integer as relative bound accepts what the double of its value does not**, because only the product
of two integers is exact. -/
theorem not_approxEqual_mono :
    let one : Double := .finite false ⟨1023 * binade, by decide⟩
    let s : Tolerance := .structured none (some (.int 1)) []
    let t : Tolerance := .structured none (some (.float one)) []
    (s.IsFinite ∧ t.IsFinite ∧ s.AtMost t) ∧ approxEqual s (.int 0) (.int (2 ^ 53 + 1)) = .ok true ∧
      approxEqual t (.int 0) (.int (2 ^ 53 + 1)) = .ok false := by
  intro one s t
  have unit : (Bound.float one).IsFiniteLimit := ⟨1, by decide +kernel, by norm_num⟩
  have whole : (Bound.int 1).IsFiniteLimit := ⟨1, by decide +kernel, by norm_num⟩
  have finite : s.IsFinite := .structured (by simp) (fun x hx => Option.some.inj hx ▸ whole) (by simp)
  have finite' : t.IsFinite := .structured (by simp) (fun x hx => Option.some.inj hx ▸ unit) (by simp)
  have larger : s.AtMost t := by
    refine .structured (.bounds (Or.inr rfl) (by simp) ?_) (by simp) (by simp)
    rintro x ⟨⟩
    exact ⟨.float one, rfl, by decide +kernel⟩
  exact ⟨⟨finite, finite', larger⟩, by decide +kernel, by decide +kernel⟩

end Value

end Assay
