import Assay.Proofs.Comparison.Foreign
import Assay.Proofs.Spec.Sound

/-!
# Where an approximate comparison fails

The tolerances of an accepted document are sound: no bound is below zero, but a bound may be infinite or
not a number.  Under such a tolerance two numbers are always compared, but for one case: the share of a
relative bound that is not finite, of an integer beyond the range of doubles, is no quantity.

* `Tolerance.Overflows` — this case;
* `Tolerance.within_eq_error_iff` — the comparison of two numbers fails in no other one;
* `Comparison.Stops` — the three ways in which a comparison of values can fail at a pair;
* `Document.approx_fails_iff` — an approximate comparison under a tolerance of an accepted document fails
  exactly if it reaches such a pair;
* `Document.approx_overflows_boundless` — an accepted document whose comparison fails because of arithmetic.
-/

namespace Assay

open Value (Entries IsLeafPair sameKeySet)

/-- An integer beyond the range of doubles. -/
def Value.IsBeyondDoubles (v : Value) : Prop :=
  ∃ i, Quantity.ofValue? v = some (.int i) ∧ Quantity.doubleOfInt? i.natAbs = none

namespace Tolerance

/-- No absolute bound accepts a pair of numbers. -/
def Unaccepted (abs : Option Bound) (a b : Value) : Prop :=
  ∀ r d, abs = some r → Quantity.difference a b = .ok d → d.le (.ofBound r) = false

/-- A structure comes to the share of a relative bound that is not finite, of an integer beyond the range
of doubles. -/
inductive Overflows : Tolerance → Value → Value → Fault → Prop
  | nan {k : Nat} {abs : Option Bound} {fields : List (String × Tolerance)} {a b : Value}
      (ha : Unaccepted abs a b) (hb : b.IsBeyondDoubles) :
      Overflows (.structured abs (some (.float (.nan k))) fields) a b .nanRatio
  | infinite {s : Bool} {abs : Option Bound} {fields : List (String × Tolerance)} {a b : Value}
      (ha : Unaccepted abs a b) (hb : b.IsBeyondDoubles) :
      Overflows (.structured abs (some (.float (.infinite s))) fields) a b .infiniteRatio

variable {t u : Tolerance} {a b : Value} {f : Fault}

theorem unaccepted_iff {abs : Option Bound} {x y : Quantity} (ha : Quantity.ofValue? a = some x)
    (hb : Quantity.ofValue? b = some y) : Unaccepted abs a b ↔
      ∀ r, abs = some r → (Quantity.distance x y).le (.ofBound r) = false := by
  have difference : Quantity.difference a b = .ok (Quantity.distance x y) := by
    rw [Quantity.difference, ha, hb]
  simp [Unaccepted, difference]

/-- **The comparison of two numbers under a sound tolerance fails exactly where a share overflows.** -/
theorem within_eq_error_iff (ht : t.IsSound) (ha : a.isNumber = true) (hb : b.isNumber = true) :
    t.within a b = .error f ↔ Overflows t a b f := by
  obtain ⟨x, hx⟩ := Quantity.exists_ofValue?_of_isNumber ha
  obtain ⟨y, hy⟩ := Quantity.exists_ofValue?_of_isNumber hb
  cases ht with
  | @plain z h =>
    have bound : Quantity.bound? (.float z) = some (.double z) := rfl
    rw [within_plain hx hy bound]
    exact iff_of_false (by simp) nofun
  | @structured abs rel fields habs hrel hfields =>
    rw [within_structured_eq_error_iff hx hy, ← unaccepted_iff hx hy]
    constructor
    · rintro ⟨far, g, rfl, hf⟩
      obtain ⟨-⟩ := hrel g rfl
      obtain ⟨⟨i, rfl, beyond⟩, ⟨⟨k, rfl⟩, rfl⟩ | ⟨⟨s, rfl⟩, rfl⟩⟩ := (Quantity.scaled_eq_error_iff hy).1 hf
      · exact .nan far ⟨i, hy, beyond⟩
      · exact .infinite far ⟨i, hy, beyond⟩
    · intro overflows
      cases overflows with
      | @nan k _ _ _ _ far hb =>
        obtain ⟨i, hi, beyond⟩ := hb
        cases hy.symm.trans hi
        exact ⟨far, _, rfl, (Quantity.scaled_eq_error_iff hy).2 ⟨⟨i, rfl, beyond⟩, Or.inl ⟨⟨k, rfl⟩, rfl⟩⟩⟩
      | @infinite s _ _ _ _ far hb =>
        obtain ⟨i, hi, beyond⟩ := hb
        cases hy.symm.trans hi
        exact ⟨far, _, rfl, (Quantity.scaled_eq_error_iff hy).2 ⟨⟨i, rfl, beyond⟩, Or.inr ⟨⟨s, rfl⟩, rfl⟩⟩⟩

/-- Under a key a sound tolerance stays sound. -/
theorem IsSound.step {k : Value} (ht : t.IsSound) (h : t.step (.key k) = some u) : u.IsSound := by
  rcases step_key_cases h with rfl | ⟨abs, rel, fields, rfl, name, hf⟩
  · exact ht
  · cases ht with
    | structured _ _ hfields => exact hfields _ hf

end Tolerance

/-! ### Whole values -/

/-- A number is neither a sequence nor a mapping. -/
theorem Value.isLeafPair_of_isNumber {x : Value} (hx : x.isNumber = true) (y : Value) : IsLeafPair x y := by
  constructor
  · cases hi : x.items? with
    | none => exact Or.inl rfl
    | some xs => simp [isNumber_of_items hi] at hx
  · cases he : x.entries? with
    | none => exact Or.inl rfl
    | some as => simp [isNumber_of_entries he] at hx

namespace Comparison

/-- An approximate comparison fails at a pair: two numbers whose share overflows, a clash, or a structure
at a key of two mappings that has no text. -/
inductive Stops (t : Tolerance) (x y : Value) : Fault → Prop
  | arithmetic {f : Fault} (hx : x.isNumber = true) (hy : y.isNumber = true) (h : t.Overflows x y f) :
      Stops t x y f
  | clash {f : Fault} (h : Clashes x y f) : Stops t x y f
  | key {k v : Value} {as bs : Entries} (ha : x.entries? = some as) (hb : y.entries? = some bs)
      (hk : sameKeySet as bs = true) (h : FirstAt (approx.EntryAgrees t bs) (k, v) as)
      (ht : ∃ abs rel fields, t = .structured abs rel fields) (hw : ¬ k.Writable) :
      Stops t x y .longInteger

variable {t u : Tolerance} {a b x y : Value} {f : Fault}

theorem failsAt_approx_iff (ht : t.IsSound) : approx.FailsAt t x y f ↔ Stops t x y f := by
  constructor
  · intro fails
    cases fails with
    | leaf h hf =>
      rcases (Value.approxEqual_eq_error_iff h).1 hf with ⟨⟨hx, hy⟩, hf⟩ | clash
      · exact .arithmetic hx hy ((Tolerance.within_eq_error_iff ht hx hy).1 hf)
      · exact .clash clash
    | key ha hb hk h hf =>
      obtain ⟨structured, unwritable, rfl⟩ := Tolerance.forKey_eq_error_iff.1 hf
      exact .key ha hb hk h structured unwritable
  · intro stops
    cases stops with
    | arithmetic hx hy h =>
      have leaves := Value.isLeafPair_of_isNumber hx y
      exact .leaf leaves ((Value.approxEqual_eq_error_iff leaves).2
        (Or.inl ⟨⟨hx, hy⟩, (Tolerance.within_eq_error_iff ht hx hy).2 h⟩))
    | clash h =>
      have leaves := h.isLeafPair.1
      exact .leaf leaves ((Value.approxEqual_eq_error_iff leaves).2 (Or.inr h))
    | key ha hb hk h structured unwritable =>
      exact .key ha hb hk h (Tolerance.forKey_eq_error_iff.2 ⟨structured, unwritable, rfl⟩)

/-- A sound tolerance stays sound on the way to every pair. -/
theorem Reaches.isSound (h : approx.Reaches t a b u x y) (ht : t.IsSound) : u.IsSound := by
  refine h.keeps (P := fun u _ _ => u.IsSound) ?_ ht
  intro s u a b x y hs next
  rcases next.below with ⟨i, -, rfl⟩ | ⟨k, -, hu⟩
  · exact hs
  · exact hs.step (Tolerance.forKey_eq_ok_iff.1 hu)

/-- An approximate comparison under a sound tolerance fails exactly at a pair that stops it. -/
theorem approxEqual_fails_iff (ht : t.IsSound) : Value.approxEqual t a b = .error f ↔
    ∃ u x y, approx.Reaches t a b u x y ∧ Stops u x y f := by
  show approx.decide t a b = .error f ↔ _
  rw [eq_error_iff isStepwise_approx]
  constructor
  · rintro ⟨u, x, y, reaches, fails⟩
    exact ⟨u, x, y, reaches, (failsAt_approx_iff (reaches.isSound ht)).1 fails⟩
  · rintro ⟨u, x, y, reaches, stops⟩
    exact ⟨u, x, y, reaches, (failsAt_approx_iff (reaches.isSound ht)).2 stops⟩

end Comparison

namespace Document

/-- **Where approximate comparison fails.**  Under a sound tolerance two numbers are compared unless a share
overflows.  The tolerances of an accepted document are sound, and under such a tolerance a comparison of
values fails exactly if it reaches two numbers whose share overflows, an object that is taken for a
collection, or, with a structure, a key without a text. -/
theorem approx_fails_iff (a b : Value) (f : Fault) :
    (∀ t : Tolerance, t.IsSound → a.isNumber = true → b.isNumber = true →
      (t.within a b = .error f ↔ t.Overflows a b f)) ∧
    ∀ v s, toSpec v = .ok s → ∀ c ∈ s.cases, ∀ t, c.tolerance = some t →
      t.IsSound ∧ (Value.approxEqual t a b = .error f ↔
        ∃ u x y, Comparison.approx.Reaches t a b u x y ∧ Comparison.Stops u x y f) := by
  refine ⟨fun t ht ha hb => Tolerance.within_eq_error_iff ht ha hb, ?_⟩
  intro v s h c hc t ht
  have sound := (case_isSound_of_toSpec h c hc).tolerance t ht
  exact ⟨sound, Comparison.approxEqual_fails_iff sound⟩

/-- A document with an infinite relative bound, whose one test expects an integer beyond the range of
doubles. -/
def boundlessDocument : Value :=
  .dict [(.str "spec", .str "s"), (.str "version", .str "1"),
    (.str "defaults", .dict [(.str "compare", .str "approx")]),
    (.str "groups", .list [.dict [(.str "group", .str "g"),
      (.str "tests", .list [.dict [(.str "id", .str "t"), (.str "op", .str "same"),
        (.str "input", .int 1), (.str "expected", .int (10 ^ 400)),
        (.str "tolerance", .dict [(.str "rel", .float (.infinite false))])]])]])]

/-- Under the tolerance of this document small integers are compared, and its own numbers are not. -/
theorem exists_boundless : ∃ s c t, toSpec boundlessDocument = .ok s ∧ c ∈ s.cases ∧
    c.tolerance = some t ∧ t.within (.int 1) (.int 2) = .ok true ∧
      t.within (.int 1) (.int (10 ^ 400)) = .error .infiniteRatio := by
  have evaluated : ((toSpec boundlessDocument).toOption.map fun s => s.cases.any fun c =>
      c.tolerance.any fun t => decide (t.within (.int 1) (.int 2) = .ok true) &&
        decide (t.within (.int 1) (.int (10 ^ 400)) = .error .infiniteRatio)) = some true := by
    decide +kernel
  cases h : toSpec boundlessDocument with
  | error f =>
    rw [h] at evaluated
    cases evaluated
  | ok s =>
    rw [h] at evaluated
    obtain ⟨c, hc, found⟩ := List.any_eq_true.1 (Option.some.inj evaluated)
    obtain ⟨t, ht, decided⟩ := (Option.any_eq_true _ _).1 found
    obtain ⟨small, large⟩ := Bool.and_eq_true_iff.1 decided
    exact ⟨s, c, t, rfl, hc, ht, of_decide_eq_true small, of_decide_eq_true large⟩

/-- So the share of a small integer does not overflow. -/
theorem approx_fails_iff_boundless :
    ∃ s c t, toSpec boundlessDocument = .ok s ∧ c ∈ s.cases ∧ c.tolerance = some t ∧ t.IsSound ∧
      (∀ f, ¬ t.Overflows (.int 1) (.int 2) f) ∧
      ∀ f, Value.approxEqual t (.list [.int 1]) (.list [.int 2]) = .error f ↔
        ∃ u x y, Comparison.approx.Reaches t (.list [.int 1]) (.list [.int 2]) u x y ∧
          Comparison.Stops u x y f := by
  obtain ⟨s, c, t, hs, hc, ht, small, -⟩ := exists_boundless
  have fails (a b : Value) (f : Fault) := (approx_fails_iff a b f).2 boundlessDocument s hs c hc t ht
  have sound := (fails .null .null .longInteger).1
  refine ⟨s, c, t, hs, hc, ht, sound, fun f overflows => ?_, fun f => (fails _ _ f).2⟩
  have failed := ((approx_fails_iff (.int 1) (.int 2) f).1 t sound rfl rfl).2 overflows
  rw [small] at failed
  cases failed

/-- **But the comparison of its own two numbers fails because of arithmetic.** -/
theorem approx_overflows_boundless :
    ∃ s c t, toSpec boundlessDocument = .ok s ∧ c ∈ s.cases ∧ c.tolerance = some t ∧
      t.within (.int 1) (.int (10 ^ 400)) = .error .infiniteRatio ∧
        Value.approxEqual t (.int 1) (.int (10 ^ 400)) = .error .infiniteRatio := by
  obtain ⟨s, c, t, hs, hc, ht, -, large⟩ := exists_boundless
  exact ⟨s, c, t, hs, hc, ht, large, (Value.approxEqual_of_numbers rfl rfl).trans large⟩

end Document

end Assay
