import Assay.Proofs.Json.Tree
import Assay.Proofs.Number.Nearest
import Assay.Proofs.Value.Position
import Assay.Value.Written

/-!
# Documents and their canonical texts

A document is a value that a JSON text can say: no integer has too many digits, every float is finite
and every key is a text.  Its canonical text is the compact text of a tree, in which an integral float
is an integer and both kinds of sequences and of mappings are one.

* `IsDocument` — values of this kind, `Value.tree` — the tree of one;
* `canonical_of_isDocument` — the canonical text of a document is the text of its tree;
* `canonical_eq_iff` — two documents have one canonical text exactly if they have one tree.
-/

namespace Assay

/-! ### Integral doubles -/

theorem lt_digitBound {n k : Nat} (h : n < 2 ^ k) (hk : k ≤ digitLimit) : n < digitBound := by
  rw [Json.digitBound_eq]
  exact h.trans_le ((Nat.pow_le_pow_left (by decide) k).trans (Nat.pow_le_pow_right (by decide) hk))

/-- The integer that a double is has few digits. -/
theorem Double.natAbs_lt_digitBound {x : Double} {i : Int} (h : x.toInt? = some i) :
    i.natAbs < digitBound := by
  obtain ⟨u, hu, hi⟩ : ∃ u, x.units? = some u ∧ i = u / oneUnits := by
    unfold toInt? at h
    split at h
    · rename_i u hu
      split at h
      · exact ⟨u, hu, (Option.some.inj h).symm⟩
      · cases h
    · cases h
  have magnitude : u.natAbs < 2 ^ (53 + 2045) := by
    rw [pow_add, ← unitsOfRank_top]
    cases x with
    | nan => cases hu
    | infinite s => cases hu
    | finite s m =>
      have top := unitsOfRank_strictMono m.2
      cases s with
      | true =>
        cases hu
        rwa [Int.natAbs_neg, Int.natAbs_natCast]
      | false =>
        cases hu
        rwa [Int.natAbs_natCast]
  rw [hi]
  exact lt_digitBound ((Int.natAbs_ediv_le_natAbs u oneUnits).trans_lt magnitude) (by decide)

namespace Value

variable {τ χ : Type}

/-! ### The tree of a document -/

/-- The tree of a numeric key. -/
def NumericKey.tree : NumericKey → Json τ
  | .whole i => .int i
  | .part x => .float x

theorem NumericKey.tree_inj {m n : NumericKey} : (m.tree : Json τ) = n.tree ↔ m = n := by
  cases m <;> cases n <;> simp [NumericKey.tree]

theorem short_numericKeyOfDouble {x : Double} (hx : x.isFinite = true) :
    ((numericKeyOfDouble x).tree : Json τ).Short := by
  unfold numericKeyOfDouble
  cases h : x.toInt? with
  | none => cases x <;> trivial
  | some i => exact Double.natAbs_lt_digitBound h

variable [Texts τ χ]

/-- The name of the member under a key. -/
def memberName : Value τ → τ
  | .str s => s
  | _ => Texts.ofString ""

mutual

/-- The tree of a document; a value that no document has is null. -/
def tree : Value τ → Json τ
  | .bool b => .bool b
  | .int i => .int i
  | .float x => (numericKeyOfDouble x).tree
  | .str s => .str s
  | .list xs => .arr (trees xs)
  | .tuple xs => .arr (trees xs)
  | .map _ es => .obj (treeMembers es)
  | _ => .null

/-- The trees of a sequence. -/
def trees : List (Value τ) → List (Json τ)
  | [] => []
  | x :: xs => tree x :: trees xs

/-- The members of a mapping. -/
def treeMembers : List (Value τ × Value τ) → List (τ × Json τ)
  | [] => []
  | (k, v) :: es => (memberName k, tree v) :: treeMembers es

end

theorem trees_eq_map (xs : List (Value τ)) : trees xs = xs.map tree := by
  induction xs with
  | nil => rfl
  | cons x xs ih => rw [trees, ih, List.map_cons]

theorem treeMembers_eq_map (es : Entries τ) :
    treeMembers es = es.map fun e => (memberName e.1, e.2.tree) := by
  induction es with
  | nil => rfl
  | cons e es ih =>
    obtain ⟨k, v⟩ := e
    rw [treeMembers, ih, List.map_cons]

theorem tree_of_items {v : Value τ} {xs : List (Value τ)} (h : v.items? = some xs) :
    v.tree = .arr (xs.map tree) := by
  rw [← trees_eq_map]
  rcases items?_eq_some h with rfl | rfl <;> rfl

theorem tree_of_entries {v : Value τ} {es : Entries τ} (h : v.entries? = some es) :
    v.tree = .obj (treeMembers es) := by
  obtain ⟨frozen, rfl⟩ := entries?_eq_some h
  rfl

theorem toJson_collapsedDouble {x : Double} (hx : x.isFinite = true) :
    (collapsedDouble x : Value τ).toJson = .ok (numericKeyOfDouble x).tree := by
  unfold collapsedDouble numericKeyOfDouble
  cases h : x.toInt? with
  | none => exact congrArg (fun y => Except.ok (Json.float y)) (Double.unmarked_of_isFinite hx)
  | some i =>
    show (integerText i).map (fun _ => (Json.int i : Json τ)) = _
    rw [integerText, if_pos (Double.natAbs_lt_digitBound h)]
    rfl

theorem toJsonAll_collapsedAll {xs : List (Value τ)} (h : ∀ x ∈ xs, x.collapsed.toJson = .ok x.tree) :
    toJsonAll (collapsedAll xs) = .ok (trees xs) := by
  induction xs with
  | nil => rfl
  | cons x xs ih =>
    rw [collapsedAll, toJsonAll, h x List.mem_cons_self, ih fun y hy => h y (List.mem_cons_of_mem x hy)]
    rfl

theorem toJsonMembers_collapsedEntries {es : Entries τ} (hk : ∀ e ∈ es, ∃ s, e.1 = .str s)
    (h : ∀ e ∈ es, e.2.collapsed.toJson = .ok e.2.tree) :
    toJsonMembers (collapsedEntries es) = .ok (treeMembers es) := by
  induction es with
  | nil => rfl
  | cons e es ih =>
    obtain ⟨k, v⟩ := e
    obtain ⟨s, rfl⟩ : ∃ s, k = .str s := hk _ List.mem_cons_self
    rw [collapsedEntries, toJsonMembers, keyName_str, h _ List.mem_cons_self,
      ih (fun e he => hk e (List.mem_cons_of_mem _ he)) fun e he => h e (List.mem_cons_of_mem _ he)]
    rfl

variable [DecidableEq τ]

/-! ### Documents -/

/-- A value that a JSON text can say. -/
inductive IsDocument : Value τ → Prop
  | null : IsDocument .null
  | bool (b : Bool) : IsDocument (.bool b)
  | int {i : Int} (h : i.natAbs < digitBound) : IsDocument (.int i)
  | float {x : Double} (h : x.isFinite = true) : IsDocument (.float x)
  | str (s : τ) : IsDocument (.str s)
  | list {xs : List (Value τ)} (h : ∀ x ∈ xs, IsDocument x) : IsDocument (.list xs)
  | tuple {xs : List (Value τ)} (h : ∀ x ∈ xs, IsDocument x) : IsDocument (.tuple xs)
  | map {frozen : Bool} {es : Entries τ} (hk : ∀ e ∈ es, ∃ s, e.1 = .str s) (hd : DistinctKeys es)
      (h : ∀ e ∈ es, IsDocument e.2) : IsDocument (.map frozen es)

theorem IsDocument.wellKeyed {v : Value τ} (h : IsDocument v) : WellKeyed v := by
  induction h with
  | list _ ih => exact wellKeyed_list.2 ih
  | tuple _ ih => exact wellKeyed_tuple.2 ih
  | map _ hd _ ih => exact wellKeyed_map.2 ⟨hd, ih⟩
  | _ => exact wellKeyed_leaf (by simp) (by simp) (by simp)

/-- The items of a document are documents. -/
theorem IsDocument.items {v : Value τ} (h : IsDocument v) {xs : List (Value τ)} (hx : v.items? = some xs) :
    ∀ x ∈ xs, IsDocument x := by
  cases h with
  | list h =>
    cases hx
    exact h
  | tuple h =>
    cases hx
    exact h
  | _ => cases hx

/-- The entries of a document have different texts as keys and documents as values. -/
theorem IsDocument.entries {v : Value τ} (h : IsDocument v) {es : Entries τ} (he : v.entries? = some es) :
    (∀ e ∈ es, ∃ s, e.1 = .str s) ∧ DistinctKeys es ∧ ∀ e ∈ es, IsDocument e.2 := by
  cases h with
  | map hk hd h =>
    cases he
    exact ⟨hk, hd, h⟩
  | _ => cases he

/-- A step stays among documents. -/
theorem Below.isDocument {a b x y : Value τ} {s : Step τ} (h : Below a b s x y) (ha : IsDocument a)
    (hb : IsDocument b) : IsDocument x ∧ IsDocument y := by
  cases h with
  | key hea heb hv hw =>
    obtain ⟨k, hm, -⟩ := mem_of_lookup hw
    exact ⟨(ha.entries hea).2.2 _ hv, (hb.entries heb).2.2 _ hm⟩
  | item hia hib hv hw =>
    exact ⟨ha.items hia _ (List.mem_of_getElem? hv), hb.items hib _ (List.mem_of_getElem? hw)⟩

theorem toJson_collapsed {v : Value τ} (h : IsDocument v) : v.collapsed.toJson = .ok v.tree := by
  induction h with
  | null => rfl
  | bool b => rfl
  | int hi =>
    rw [collapsed, toJson, integerText, if_pos hi]
    · rfl
    all_goals simp
  | float hx => exact toJson_collapsedDouble hx
  | str s => rfl
  | list _ ih =>
    rw [collapsed, toJson, toJsonAll_collapsedAll ih]
    rfl
  | tuple _ ih =>
    rw [collapsed, toJson, toJsonAll_collapsedAll ih]
    rfl
  | map hk _ _ ih =>
    rw [collapsed, toJson, toJsonMembers_collapsedEntries hk ih]
    rfl

/-- The tree of a document has no long integer. -/
theorem short_tree {v : Value τ} (h : IsDocument v) : v.tree.Short := by
  have items {xs : List (Value τ)} (hx : ∀ x ∈ xs, x.tree.Short) : Json.ShortItems (trees xs) := by
    induction xs with
    | nil => trivial
    | cons x xs ih => exact ⟨hx x List.mem_cons_self, ih fun y hy => hx y (List.mem_cons_of_mem x hy)⟩
  have members {es : Entries τ} (he : ∀ e ∈ es, e.2.tree.Short) : Json.ShortMembers (treeMembers es) := by
    induction es with
    | nil => trivial
    | cons e es ih => exact ⟨he e List.mem_cons_self, ih fun f hf => he f (List.mem_cons_of_mem e hf)⟩
  induction h with
  | null => trivial
  | bool b => trivial
  | int hi => exact hi
  | float hx => exact short_numericKeyOfDouble hx
  | str s => trivial
  | list _ ih => exact items ih
  | tuple _ ih => exact items ih
  | map _ _ _ ih => exact members ih

/-! ### The canonical text -/

variable [Letter χ]

/-- **The canonical text of a document is the text of its tree.** -/
theorem canonical_of_isDocument {v : Value τ} (h : IsDocument v) :
    v.canonical = .ok (Json.write .compact 0 v.tree) := by
  rw [canonical, toJson_collapsed h]
  rfl

/-- **Documents have the same canonical text exactly if they have the same tree.** -/
theorem canonical_eq_iff {a b : Value τ} (ha : IsDocument a) (hb : IsDocument b) :
    a.canonical = b.canonical ↔ a.tree = b.tree := by
  rw [canonical_of_isDocument ha, canonical_of_isDocument hb]
  constructor
  · intro h
    exact Json.write_injective Json.readable_compact (short_tree ha) (short_tree hb) (Except.ok.inj h)
  · intro h
    rw [h]

end Value

end Assay
