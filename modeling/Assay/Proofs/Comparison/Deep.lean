import Assay.Comparison.Deep
import Assay.Proofs.Value.Position

/-!
# Deep equality, position by position

* `DeepAt` — what must hold of two values at one position;
* `deepEqual_step` — one step of deep equality;
* `deepEqual_iff` — deep equality holds exactly if `DeepAt` does wherever the steps lead.
-/

namespace Assay.Value

variable {τ : Type}

/-! ### Lists of pairs -/

/-- What holds of the heads of two lists and at each index of their tails holds at each index. -/
theorem forall_getElem?_cons {P : Value τ → Value τ → Prop} {x y : Value τ} {xs ys : List (Value τ)} :
    (∀ (i : Nat) (v w : Value τ), (x :: xs)[i]? = some v → (y :: ys)[i]? = some w → P v w) ↔
      P x y ∧ ∀ (i : Nat) (v w : Value τ), xs[i]? = some v → ys[i]? = some w → P v w := by
  constructor
  · intro h
    exact ⟨h 0 x y rfl rfl, fun i v w hv hw => h (i + 1) v w hv hw⟩
  · rintro ⟨hh, ht⟩ i v w hv hw
    cases i with
    | zero =>
      cases hv
      cases hw
      exact hh
    | succ i => exact ht i v w hv hw

/-- What holds of the first entry and of the others holds of each entry. -/
theorem forall_mem_entries_cons {P : Value τ → Value τ → Prop} {k v : Value τ} {es : Entries τ} :
    (∀ l w, (l, w) ∈ (k, v) :: es → P l w) ↔ P k v ∧ ∀ l w, (l, w) ∈ es → P l w := by
  have pairs := List.forall_mem_cons (p := fun e : Value τ × Value τ => P e.1 e.2) (a := (k, v)) (l := es)
  rwa [Prod.forall, Prod.forall] at pairs

/-! ### Mixed pairs -/

theorem outsideEquals_ne_true {family : String} {b : Value τ} : outsideEquals family b ≠ .ok true := by
  cases b with
  | foreign o =>
    rw [outsideEquals]
    split
    · simp
    · split <;> simp
  | _ => simp [outsideEquals]

variable [DecidableEq τ]

/-- Deeply equal values are of one family. -/
theorem family_eq_of_deepEqual {a b : Value τ} (h : deepEqual a b = .ok true) : a.family = b.family := by
  have outside (f : String) (g : outsideEquals f b = .ok true) : a.family = b.family :=
    absurd g outsideEquals_ne_true
  cases a with
  | map frozen as =>
    cases b with
    | map => rfl
    | _ => exact outside "object" h
  | list xs =>
    cases b with
    | list => rfl
    | tuple => rfl
    | _ => exact outside "array" h
  | tuple xs =>
    cases b with
    | list => rfl
    | tuple => rfl
    | _ => exact outside "array" h
  | foreign o =>
    have hf : foreignEquals o b = .ok true := h
    unfold foreignEquals at hf
    split at hf
    · simp at hf
    · rename_i hc
      exact Classical.byContradiction hc
  | _ =>
    rw [deepEqual] at h
    · split at h
      · assumption
      · simp at h
    all_goals simp

/-! ### Leaves -/

/-- Two leaves that are no objects are equal by key, if they are numbers at all. -/
theorem leafEquals_of_not_foreign {a b : Value τ} (ha : ∀ o, a ≠ .foreign o) (hb : ∀ o, b ≠ .foreign o) :
    leafEquals a b = .ok (sameKey a b && !a.isNan) := by
  cases a with
  | foreign o => exact absurd rfl (ha o)
  | _ =>
    cases b with
    | foreign o => exact absurd rfl (hb o)
    | _ => rfl

/-! ### One step of the comparison -/

/-- A comparison that goes on only after an agreement. -/
theorem bind_ite_ok_iff {r q : Except Fault Bool} :
    (do if ← r then q else return false) = .ok true ↔ r = .ok true ∧ q = .ok true := by
  cases r with
  | error f => simp [bind, Except.bind]
  | ok b => cases b <;> simp [bind, Except.bind, pure, Except.pure]

/-- A comparison that is not made when the shapes differ. -/
theorem ite_ok_iff {p : Prop} [Decidable p] {r : Except Fault Bool} :
    (if p then r else .ok false) = .ok true ↔ p ∧ r = .ok true := by
  by_cases h : p
  · rw [if_pos h]
    exact (and_iff_right h).symm
  · rw [if_neg h]
    simp [h]

theorem deepAll_iff {xs ys : List (Value τ)} :
    deepAll xs ys = .ok true ↔
      ∀ (i : Nat) (x y : Value τ), xs[i]? = some x → ys[i]? = some y → deepEqual x y = .ok true := by
  induction xs generalizing ys with
  | nil => simp [deepAll_nil]
  | cons x xs ih =>
    cases ys with
    | nil => simp [deepAll]
    | cons y ys => rw [deepAll, bind_ite_ok_iff, ih, forall_getElem?_cons]

theorem deepEntries_iff {as bs : Entries τ} :
    deepEntries bs as = .ok true ↔
      ∀ k v, (k, v) ∈ as → ∃ w, lookup k bs = some w ∧ deepEqual v w = .ok true := by
  induction as with
  | nil => simp [deepEntries]
  | cons e es ih =>
    obtain ⟨k, v⟩ := e
    rw [forall_mem_entries_cons, ← ih, deepEntries]
    cases hw : lookup k bs with
    | none => simp [pure, Except.pure]
    | some w =>
      simp only [Option.some.injEq, exists_eq_left']
      exact bind_ite_ok_iff

theorem deepEqual_of_items {a b : Value τ} {xs ys : List (Value τ)} (ha : a.items? = some xs)
    (hb : b.items? = some ys) :
    deepEqual a b = if xs.length = ys.length then deepAll xs ys else .ok false := by
  rcases items?_eq_some ha with rfl | rfl <;> rcases items?_eq_some hb with rfl | rfl <;> rfl

theorem deepEqual_of_entries {a b : Value τ} {as bs : Entries τ} (ha : a.entries? = some as)
    (hb : b.entries? = some bs) :
    deepEqual a b = if sameKeySet as bs then deepEntries bs as else .ok false := by
  obtain ⟨_, rfl⟩ := entries?_eq_some ha
  obtain ⟨_, rfl⟩ := entries?_eq_some hb
  rfl

/-! ### What agrees at a position -/

/-- What must hold of two values at a position: they have one shape, and leaves are deeply equal. -/
structure DeepAt (x y : Value τ) : Prop extends ShapeAt x y where
  leaf : IsLeafPair x y → deepEqual x y = .ok true

theorem deepAt_of_items {a b : Value τ} {xs ys : List (Value τ)} (ha : a.items? = some xs)
    (hb : b.items? = some ys) : DeepAt a b ↔ xs.length = ys.length := by
  rw [← shapeAt_of_items ha hb]
  exact ⟨fun h => h.toShapeAt, fun h => ⟨h, fun hl => absurd hl (not_isLeafPair_of_items ha hb)⟩⟩

theorem deepAt_of_entries {a b : Value τ} {as bs : Entries τ} (ha : a.entries? = some as)
    (hb : b.entries? = some bs) : DeepAt a b ↔ SameKeys as bs := by
  rw [← shapeAt_of_entries ha hb]
  exact ⟨fun h => h.toShapeAt, fun h => ⟨h, fun hl => absurd hl (not_isLeafPair_of_entries ha hb)⟩⟩

theorem deepAt_of_isLeafPair {a b : Value τ} (h : IsLeafPair a b) :
    DeepAt a b ↔ deepEqual a b = .ok true :=
  ⟨fun g => g.leaf h, fun g => ⟨shapeAt_of_isLeafPair h, fun _ => g⟩⟩

/-- One step of deep equality. -/
theorem deepEqual_step {a b : Value τ} (hab : WellKeyed a ∧ WellKeyed b) :
    deepEqual a b = .ok true ↔ DeepAt a b ∧ ∀ s x y, Below a b s x y → deepEqual x y = .ok true := by
  rcases pair_cases a b with ⟨xs, ys, ha, hb⟩ | ⟨as, bs, ha, hb⟩ | h
  · rw [deepEqual_of_items ha hb, ite_ok_iff, deepAt_of_items ha hb, forall_below_of_items ha hb,
      deepAll_iff]
  · rw [deepEqual_of_entries ha hb, ite_ok_iff, deepAt_of_entries ha hb, forall_below_of_entries ha hb,
      ← sameKeySet_iff (hab.1.distinctKeys ha) (hab.2.distinctKeys hb), deepEntries_iff]
    apply and_congr_right
    intro hk
    constructor
    · intro h k v w hv hw
      obtain ⟨w', hw', he⟩ := h k v hv
      cases hw.symm.trans hw'
      exact he
    · intro h k v hv
      obtain ⟨w, hw⟩ := exists_lookup_of_sameKeySet hk hv
      exact ⟨w, hw, h k v w hv hw⟩
  · rw [and_forall_below_of_isLeafPair h, deepAt_of_isLeafPair h]

/-- **Deep equality, position by position.** -/
theorem deepEqual_iff {a b : Value τ} (ha : WellKeyed a) (hb : WellKeyed b) :
    deepEqual a b = .ok true ↔ ∀ p x y, Meets a b p x y → DeepAt x y :=
  meets_iff_of_unfold (fun h hs => hs.wellKeyed h.1 h.2) deepEqual_step ⟨ha, hb⟩

end Assay.Value
