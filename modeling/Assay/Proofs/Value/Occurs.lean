import Assay.Value.Normal

/-!
# What occurs in a value

A value occurs in another one as itself, as an item of a sequence or as a value of a mapping, at any
depth; keys do not count.  `isSpecial_iff` says that the check for special values finds exactly the
floats that are not finite among what occurs.
-/

namespace Assay.Value

/-- `Occurs x v`: the value `x` stands somewhere in `v`, not counting keys. -/
inductive Occurs {τ : Type} : Value τ → Value τ → Prop
  | self (v : Value τ) : Occurs v v
  | list {x y : Value τ} {xs : List (Value τ)} (hy : y ∈ xs) (h : Occurs x y) : Occurs x (.list xs)
  | tuple {x y : Value τ} {xs : List (Value τ)} (hy : y ∈ xs) (h : Occurs x y) : Occurs x (.tuple xs)
  | map {x k y : Value τ} {frozen : Bool} {es : List (Value τ × Value τ)} (hy : (k, y) ∈ es)
      (h : Occurs x y) : Occurs x (.map frozen es)

/-- A float, plain or wrapped, that is not finite. -/
def IsNonFinite (v : Value) : Prop := ∃ x : Double, v.unwrapped = .float x ∧ x.isFinite = false

/-- A float that is not finite occurs in the value. -/
def HoldsNonFinite (v : Value) : Prop := ∃ x, Occurs x v ∧ x.IsNonFinite

theorem not_isNonFinite_of_unwrapped {v : Value} (h : ∀ x, v.unwrapped ≠ .float x) : ¬ v.IsNonFinite := by
  rintro ⟨x, hx, -⟩
  exact h x hx

/-- In a list of values some value holds one exactly if the list does. -/
theorem holdsNonFinite_list {xs : List Value} :
    HoldsNonFinite (.list xs) ↔ ∃ y ∈ xs, y.HoldsNonFinite := by
  constructor
  · rintro ⟨x, hx, hn⟩
    cases hx with
    | self => exact absurd hn (not_isNonFinite_of_unwrapped (by simp [unwrapped]))
    | list hy h => exact ⟨_, hy, x, h, hn⟩
  · rintro ⟨y, hy, x, hx, hn⟩
    exact ⟨x, .list hy hx, hn⟩

theorem holdsNonFinite_tuple {xs : List Value} :
    HoldsNonFinite (.tuple xs) ↔ ∃ y ∈ xs, y.HoldsNonFinite := by
  constructor
  · rintro ⟨x, hx, hn⟩
    cases hx with
    | self => exact absurd hn (not_isNonFinite_of_unwrapped (by simp [unwrapped]))
    | tuple hy h => exact ⟨_, hy, x, h, hn⟩
  · rintro ⟨y, hy, x, hx, hn⟩
    exact ⟨x, .tuple hy hx, hn⟩

theorem holdsNonFinite_map {frozen : Bool} {es : List (Value × Value)} :
    HoldsNonFinite (.map frozen es) ↔ ∃ e ∈ es, e.2.HoldsNonFinite := by
  constructor
  · rintro ⟨x, hx, hn⟩
    cases hx with
    | self => exact absurd hn (not_isNonFinite_of_unwrapped (by simp [unwrapped]))
    | map hy h => exact ⟨_, hy, x, h, hn⟩
  · rintro ⟨⟨k, y⟩, hy, x, hx, hn⟩
    exact ⟨x, .map hy hx, hn⟩

/-- In any other value nothing but the value itself occurs. -/
theorem holdsNonFinite_leaf {v : Value} (hl : ∀ xs, v ≠ .list xs) (ht : ∀ xs, v ≠ .tuple xs)
    (hm : ∀ frozen es, v ≠ .map frozen es) : v.HoldsNonFinite ↔ v.IsNonFinite := by
  constructor
  · rintro ⟨x, hx, hn⟩
    cases hx with
    | self => exact hn
    | list => exact absurd rfl (hl _)
    | tuple => exact absurd rfl (ht _)
    | map => exact absurd rfl (hm _ _)
  · intro h
    exact ⟨v, .self v, h⟩

mutual

/-- **The check for special values is exact.** -/
theorem isSpecial_iff : ∀ v : Value, v.isSpecial = true ↔ v.HoldsNonFinite
  | .list xs => by rw [isSpecial, anySpecial_iff xs, holdsNonFinite_list]
  | .tuple xs => by rw [isSpecial, anySpecial_iff xs, holdsNonFinite_tuple]
  | .map _ es => by rw [isSpecial, anyEntrySpecial_iff es, holdsNonFinite_map]
  | .float x => by
    rw [holdsNonFinite_leaf (by simp) (by simp) (by simp)]
    simp [isSpecial, IsNonFinite, unwrapped]
  | .scalar e i => by
    rw [holdsNonFinite_leaf (by simp) (by simp) (by simp)]
    cases e <;> cases i <;> simp [isSpecial, IsNonFinite, unwrapped]
  | .absent | .null | .bool _ | .int _ | .str _ | .bytes _ | .date _ | .moment _ | .foreign _ | .array _ _ => by
    rw [holdsNonFinite_leaf (by simp) (by simp) (by simp)]
    simp [isSpecial, IsNonFinite, unwrapped]

theorem anySpecial_iff : ∀ xs : List Value, anySpecial xs = true ↔ ∃ y ∈ xs, y.HoldsNonFinite
  | [] => by simp [anySpecial]
  | x :: xs => by
    rw [anySpecial, Bool.or_eq_true, isSpecial_iff x, anySpecial_iff xs]
    simp only [List.mem_cons, exists_eq_or_imp]

theorem anyEntrySpecial_iff : ∀ es : List (Value × Value),
    anyEntrySpecial es = true ↔ ∃ e ∈ es, e.2.HoldsNonFinite
  | [] => by simp [anyEntrySpecial]
  | (k, v) :: es => by
    rw [anyEntrySpecial, Bool.or_eq_true, isSpecial_iff v, anyEntrySpecial_iff es]
    simp only [List.mem_cons, exists_eq_or_imp]

end

end Assay.Value
