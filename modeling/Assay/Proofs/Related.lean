import Mathlib.Data.List.Forall2

/-!
# Lists related item by item

* `exists_getElem?_right`, `exists_mem_right` and the same to the left — the partner of an item;
* `forall₂_imp_of_mem`, `forall₂_of_getElem?` — related lists from related items;
* `map_eq_map_of_forall₂` — lists that become one list.
-/

namespace Assay

variable {α β : Type} {R : α → β → Prop} {xs : List α} {ys : List β}

theorem exists_getElem?_right (h : List.Forall₂ R xs ys) {i : Nat} {x : α} (hx : xs[i]? = some x) :
    ∃ y, ys[i]? = some y ∧ R x y := by
  induction h generalizing i with
  | nil => cases hx
  | cons hxy _ ih =>
    cases i with
    | zero =>
      obtain rfl := Option.some.inj hx
      exact ⟨_, rfl, hxy⟩
    | succ i => exact ih hx

theorem exists_getElem?_left (h : List.Forall₂ R xs ys) {i : Nat} {y : β} (hy : ys[i]? = some y) :
    ∃ x, xs[i]? = some x ∧ R x y :=
  exists_getElem?_right (R := flip R) h.flip hy

theorem exists_mem_right (h : List.Forall₂ R xs ys) {x : α} (hx : x ∈ xs) : ∃ y ∈ ys, R x y := by
  obtain ⟨i, hi⟩ := List.mem_iff_getElem?.1 hx
  obtain ⟨y, hy, hxy⟩ := exists_getElem?_right h hi
  exact ⟨y, List.mem_iff_getElem?.2 ⟨i, hy⟩, hxy⟩

theorem exists_mem_left (h : List.Forall₂ R xs ys) {y : β} (hy : y ∈ ys) : ∃ x ∈ xs, R x y :=
  exists_mem_right (R := flip R) h.flip hy

theorem forall₂_imp_of_mem {S : α → β → Prop} (h : List.Forall₂ R xs ys)
    (hS : ∀ x y, x ∈ xs → R x y → S x y) : List.Forall₂ S xs ys := by
  induction h with
  | nil => exact .nil
  | @cons x y _ _ hxy _ ih =>
    exact .cons (hS x y (by simp) hxy) (ih fun x y hx => hS x y (List.mem_cons_of_mem _ hx))

theorem forall₂_of_getElem? (hl : xs.length = ys.length)
    (h : ∀ (i : Nat) x y, xs[i]? = some x → ys[i]? = some y → R x y) : List.Forall₂ R xs ys := by
  induction xs generalizing ys with
  | nil =>
    obtain rfl := List.length_eq_zero_iff.1 hl.symm
    exact .nil
  | cons x xs ih =>
    cases ys with
    | nil => cases hl
    | cons y ys =>
      exact .cons (h 0 x y rfl rfl) (ih (Nat.succ.inj hl) fun i x y hx hy => h (i + 1) x y hx hy)

/-- Every item can be given a partner. -/
theorem exists_forall₂ (h : ∀ y ∈ ys, ∃ x, R x y) : ∃ xs, List.Forall₂ R xs ys := by
  induction ys with
  | nil => exact ⟨[], .nil⟩
  | cons y ys ih =>
    obtain ⟨x, hx⟩ := h y (by simp)
    obtain ⟨xs, hxs⟩ := ih fun y hy => h y (List.mem_cons_of_mem _ hy)
    exact ⟨x :: xs, .cons hx hxs⟩

/-- Lists whose items become the same become one list. -/
theorem map_eq_map_of_forall₂ {γ : Type} {f : α → γ} {g : β → γ}
    (h : List.Forall₂ (fun x y => f x = g y) xs ys) : xs.map f = ys.map g := by
  have same : List.Forall₂ Eq (xs.map f) (ys.map g) :=
    List.forall₂_map_left_iff.2 (List.forall₂_map_right_iff.2 h)
  rwa [List.forall₂_eq_eq_eq] at same

end Assay
