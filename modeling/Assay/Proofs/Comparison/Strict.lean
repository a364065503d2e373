import Assay.Comparison.Mode
import Assay.Proofs.Comparison.Deep
import Assay.Proofs.Value.Document

/-!
# Strict and deep comparison of documents

Strict comparison compares texts, deep comparison structures.  On documents the first is the second
together with the order of the keys.

* `StrictAt` — what must hold of two documents at one position;
* `tree_eq_step` — one step of equality of trees;
* `tree_eq_iff` — two documents have one tree exactly if `StrictAt` holds wherever the steps lead;
* `compare_strict_iff` — strict comparison is deep comparison and one order of keys.
-/

namespace Assay

variable {τ χ : Type}

/-- The family of the values with a tree. -/
def Json.family : Json τ → String
  | .null => "null"
  | .bool _ => "bool"
  | .int _ => "number"
  | .float _ => "number"
  | .str _ => "string"
  | .arr _ => "array"
  | .obj _ => "object"

namespace Value

/-! ### Orders of keys -/

/-- Two mappings list their keys in one order. -/
def SameOrder (x y : Value τ) : Prop :=
  ∀ as bs, x.entries? = some as → y.entries? = some bs → as.map Prod.fst = bs.map Prod.fst

theorem sameOrder_of_entries {a b : Value τ} {as bs : Entries τ} (ha : a.entries? = some as)
    (hb : b.entries? = some bs) : SameOrder a b ↔ as.map Prod.fst = bs.map Prod.fst := by
  constructor
  · intro h
    exact h as bs ha hb
  · intro h as' bs' ha' hb'
    cases ha.symm.trans ha'
    cases hb.symm.trans hb'
    exact h

theorem sameOrder_of_none {a b : Value τ} (h : a.entries? = none ∨ b.entries? = none) : SameOrder a b := by
  intro as bs ha hb
  simp [ha, hb] at h

/-! ### Leaves -/

section

variable [DecidableEq τ] [Texts τ χ]

theorem IsDocument.family_tree {v : Value τ} (h : IsDocument v) : v.tree.family = v.family := by
  cases h with
  | float _ =>
    rw [tree]
    cases numericKeyOfDouble _ <;> rfl
  | _ => rfl

/-- Values of different families have different trees and are not deeply equal. -/
theorem tree_eq_iff_of_family_ne {a b : Value τ} (ha : IsDocument a) (hb : IsDocument b)
    (h : a.family ≠ b.family) : a.tree = b.tree ↔ deepEqual a b = .ok true := by
  refine iff_of_false ?_ fun hd => h (family_eq_of_deepEqual hd)
  intro ht
  rw [← ha.family_tree, ← hb.family_tree, ht] at h
  exact h rfl

/-- Numbers have one tree exactly if they are one key. -/
theorem tree_eq_iff_of_number {a b : Value τ} {m n : NumericKey} (ha : a.tree = m.tree)
    (hb : b.tree = n.tree) (h : deepEqual a b = .ok (m == n)) :
    a.tree = b.tree ↔ deepEqual a b = .ok true := by
  rw [ha, hb, h, NumericKey.tree_inj, Except.ok.injEq, beq_iff_eq]

/-- Numbers in one family are deeply equal if they are one key. -/
theorem deepEqual_of_number {a b : Value τ} {m n : NumericKey} (ha : a.keyClass? = some (.number m))
    (hb : b.keyClass? = some (.number n)) (apart : a.isNan = false)
    (leaf : deepEqual a b = leafEquals a b) (hfa : ∀ o, a ≠ .foreign o) (hfb : ∀ o, b ≠ .foreign o)
    (tuple : ∀ xs, a ≠ .tuple xs) : deepEqual a b = .ok (m == n) := by
  rw [leaf, leafEquals_of_not_foreign hfa hfb, sameKey_of_not_tuple tuple, sameLeaf_of_keyClass ha hb,
    apart, Bool.not_false, Bool.and_true]
  exact congrArg _ (by rw [Bool.eq_iff_iff]; simp)

theorem deepEqual_int (i : Int) {b : Value τ} {n : NumericKey} (hf : b.family = "number")
    (hn : b.keyClass? = some (.number n)) (hb : ∀ o, b ≠ .foreign o) :
    deepEqual (.int i) b = .ok (.whole i == n) :=
  deepEqual_of_number rfl hn rfl (if_pos hf.symm) nofun hb nofun

theorem deepEqual_float {x : Double} (hx : x.isFinite = true) {b : Value τ} {n : NumericKey}
    (hf : b.family = "number") (hn : b.keyClass? = some (.number n)) (hb : ∀ o, b ≠ .foreign o) :
    deepEqual (.float x) b = .ok (numericKeyOfDouble x == n) := by
  have apart : (Value.float x : Value τ).isNan = false := by cases x <;> trivial
  exact deepEqual_of_number rfl hn apart (if_pos hf.symm) nofun hb nofun

theorem tree_eq_iff_of_bool (b c : Bool) :
    (Value.bool b : Value τ).tree = (Value.bool c).tree ↔ deepEqual (.bool b : Value τ) (.bool c) = .ok true := by
  have key : deepEqual (.bool b : Value τ) (.bool c) = .ok (b == c) := by
    cases b <;> cases c <;> rfl
  rw [key, tree, tree, Json.bool.injEq, Except.ok.injEq, beq_iff_eq]

theorem tree_eq_iff_of_str (s t : τ) :
    (Value.str s).tree = (Value.str t).tree ↔ deepEqual (.str s) (.str t) = .ok true := by
  have key : deepEqual (.str s) (.str t) = .ok (s == t) := by
    show Except.ok (sameKey (.str s) (.str t) && true) = _
    rw [sameKey_str, Bool.and_true]
  rw [key, tree, tree, Json.str.injEq, Except.ok.injEq, beq_iff_eq]

/-- On leaves, trees and deep equality agree. -/
theorem tree_eq_iff_of_isLeafPair {a b : Value τ} (ha : IsDocument a) (hb : IsDocument b)
    (h : IsLeafPair a b) : a.tree = b.tree ↔ deepEqual a b = .ok true := by
  by_cases hf : a.family = b.family
  · cases ha with
    | null =>
      cases hb with
      | null => exact iff_of_true rfl rfl
      | _ => simp [family, unwrapped] at hf
    | bool b =>
      cases hb with
      | bool c => exact tree_eq_iff_of_bool b c
      | _ => simp [family, unwrapped] at hf
    | @int i hi =>
      cases hb with
      | @int j hj =>
        exact tree_eq_iff_of_number (m := .whole i) (n := .whole j) rfl rfl (deepEqual_int i rfl rfl nofun)
      | float hy => exact tree_eq_iff_of_number (m := .whole i) rfl rfl (deepEqual_int i rfl rfl nofun)
      | _ => simp [family, unwrapped] at hf
    | float hx =>
      cases hb with
      | @int j hj => exact tree_eq_iff_of_number (n := .whole j) rfl rfl (deepEqual_float hx rfl rfl nofun)
      | float hy => exact tree_eq_iff_of_number rfl rfl (deepEqual_float hx rfl rfl nofun)
      | _ => simp [family, unwrapped] at hf
    | str s =>
      cases hb with
      | str t => exact tree_eq_iff_of_str s t
      | _ => simp [family, unwrapped] at hf
    | list _ =>
      -- The other value is a sequence as well, so the pair is none of leaves.
      have := h.1
      cases hb <;> simp [family, unwrapped, items?] at hf this
    | tuple _ =>
      have := h.1
      cases hb <;> simp [family, unwrapped, items?] at hf this
    | map _ _ _ =>
      have := h.2
      cases hb <;> simp [family, unwrapped, entries?] at hf this
  · exact tree_eq_iff_of_family_ne ha hb hf

/-! ### One step of equality of trees -/

theorem map_eq_map_iff_getElem? {α β : Type} {f : α → β} {xs ys : List α} :
    xs.map f = ys.map f ↔ xs.length = ys.length ∧
      ∀ (i : Nat) (x y : α), xs[i]? = some x → ys[i]? = some y → f x = f y := by
  constructor
  · intro h
    refine ⟨by simpa using congrArg List.length h, ?_⟩
    intro i x y hx hy
    have same := congrArg (fun zs => zs[i]?) h
    simpa [hx, hy] using same
  · rintro ⟨hl, h⟩
    refine List.ext_getElem (by simpa using hl) ?_
    intro i hi hi'
    rw [List.getElem_map, List.getElem_map]
    exact h i _ _ (List.getElem?_eq_getElem _) (List.getElem?_eq_getElem _)

/-- Any two mappings at one position list their keys in one order. -/
def KeysInOrder (a b : Value τ) : Prop := ∀ p x y, Meets a b p x y → SameOrder x y

/-- What must hold of two documents at a position. -/
structure StrictAt (x y : Value τ) : Prop where
  deep : DeepAt x y
  order : SameOrder x y

/-- Text keys with the same name are the same key. -/
theorem sameKey_of_memberName {k l : Value τ} (hk : ∃ s, k = .str s) (hl : ∃ s, l = .str s)
    (h : memberName k = memberName l) : k = l ∧ sameKey l k = true := by
  obtain ⟨s, rfl⟩ := hk
  obtain ⟨t, rfl⟩ := hl
  cases (show s = t from h)
  exact ⟨rfl, by rw [sameKey_str, beq_self_eq_true]⟩

/-- Keys in one order are the same keys. -/
theorem sameKeys_of_map_fst {as bs : Entries τ} (hk : ∀ e ∈ as, ∃ s, e.1 = .str s)
    (h : as.map Prod.fst = bs.map Prod.fst) : SameKeys as bs := by
  have same {e e' : Value τ × Value τ} (he : e ∈ as) (hs : e'.1 = e.1) : sameKey e.1 e'.1 = true := by
    obtain ⟨s, hes⟩ := hk e he
    rw [hs, hes, sameKey_str, beq_self_eq_true]
  constructor
  · intro e he
    obtain ⟨e', he', hs⟩ := List.mem_map.1 (h ▸ List.mem_map_of_mem (f := Prod.fst) he)
    exact ⟨e', he', same he hs⟩
  · intro e' he'
    obtain ⟨e, he, hs⟩ := List.mem_map.1 (h.symm ▸ List.mem_map_of_mem (f := Prod.fst) he')
    exact ⟨e, he, same he hs.symm⟩

/-- Members are equal exactly if the keys are in one order and the values under each key have one
tree. -/
theorem treeMembers_eq_iff {as bs : Entries τ} (hka : ∀ e ∈ as, ∃ s, e.1 = .str s)
    (hkb : ∀ e ∈ bs, ∃ s, e.1 = .str s) (hd : DistinctKeys bs) :
    treeMembers as = treeMembers bs ↔ as.map Prod.fst = bs.map Prod.fst ∧
      ∀ k v w, (k, v) ∈ as → lookup k bs = some w → v.tree = w.tree := by
  rw [treeMembers_eq_map, treeMembers_eq_map, map_eq_map_iff_getElem?, map_eq_map_iff_getElem?]
  have mem {es : Entries τ} {i : Nat} {e : Value τ × Value τ} (h : es[i]? = some e) : e ∈ es :=
    List.mem_of_getElem? h
  constructor
  · rintro ⟨hl, h⟩
    have same (i : Nat) (e e' : Value τ × Value τ) (he : as[i]? = some e) (he' : bs[i]? = some e') :
        e.1 = e'.1 ∧ sameKey e'.1 e.1 = true :=
      sameKey_of_memberName (hka e (mem he)) (hkb e' (mem he')) (Prod.mk.inj (h i e e' he he')).1
    refine ⟨⟨hl, fun i e e' he he' => (same i e e' he he').1⟩, ?_⟩
    intro k v w hv hw
    obtain ⟨i, hi, he⟩ := List.getElem_of_mem hv
    have hi' : i < bs.length := hl ▸ hi
    have ha : as[i]? = some (k, v) := by rw [List.getElem?_eq_getElem hi, he]
    have hb : bs[i]? = some bs[i] := List.getElem?_eq_getElem hi'
    have found := lookup_eq_some_of_mem hd (mem hb) (same i _ _ ha hb).2
    cases hw.symm.trans found
    exact (Prod.mk.inj (h i _ _ ha hb)).2
  · rintro ⟨⟨hl, h⟩, ht⟩
    refine ⟨hl, ?_⟩
    rintro i ⟨k, v⟩ ⟨l, w⟩ he he'
    obtain rfl : k = l := h i _ _ he he'
    obtain ⟨s, hs⟩ : ∃ s, k = .str s := hka _ (mem he)
    have self : sameKey k k = true := by
      rw [hs, sameKey_str, beq_self_eq_true]
    exact Prod.ext rfl (ht k v w (mem he) (lookup_eq_some_of_mem hd (mem he') self))

/-- One step of equality of trees. -/
theorem tree_eq_step {a b : Value τ} (hab : IsDocument a ∧ IsDocument b) :
    a.tree = b.tree ↔ StrictAt a b ∧ ∀ s x y, Below a b s x y → x.tree = y.tree := by
  rcases pair_cases a b with ⟨xs, ys, ha, hb⟩ | ⟨as, bs, ha, hb⟩ | h
  · rw [tree_of_items ha, tree_of_items hb, Json.arr.injEq, map_eq_map_iff_getElem?,
      forall_below_of_items ha hb, ← deepAt_of_items ha hb]
    have order : SameOrder a b := sameOrder_of_none (Or.inl (entries?_of_items ha))
    exact and_congr_left fun _ => ⟨fun h => ⟨h, order⟩, fun h => h.deep⟩
  · obtain ⟨hka, -, -⟩ := hab.1.entries ha
    obtain ⟨hkb, hd, -⟩ := hab.2.entries hb
    rw [tree_of_entries ha, tree_of_entries hb, Json.obj.injEq, treeMembers_eq_iff hka hkb hd,
      forall_below_of_entries ha hb, ← sameOrder_of_entries ha hb]
    apply and_congr_left
    intro _
    constructor
    · intro h
      have keys := sameKeys_of_map_fst hka ((sameOrder_of_entries ha hb).1 h)
      exact ⟨(deepAt_of_entries ha hb).2 keys, h⟩
    · intro h
      exact h.order
  · rw [and_forall_below_of_isLeafPair h, tree_eq_iff_of_isLeafPair hab.1 hab.2 h,
      ← deepAt_of_isLeafPair h]
    exact ⟨fun g => ⟨g, sameOrder_of_none h.2⟩, fun g => g.deep⟩

/-- **Two documents have one tree exactly if `StrictAt` holds wherever the steps lead.** -/
theorem tree_eq_iff {a b : Value τ} (ha : IsDocument a) (hb : IsDocument b) :
    a.tree = b.tree ↔ ∀ p x y, Meets a b p x y → StrictAt x y :=
  meets_iff_of_unfold (fun h hs => hs.isDocument h.1 h.2) tree_eq_step ⟨ha, hb⟩

end

/-! ### Strict comparison -/

theorem strictEqual_iff_tree_eq {a b : Value} (ha : IsDocument a) (hb : IsDocument b) :
    strictEqual a b = .ok true ↔ a.tree = b.tree := by
  rw [← canonical_eq_iff ha hb, canonical_of_isDocument ha, canonical_of_isDocument hb,
    strictEqual_of_canonical (canonical_of_isDocument ha) (canonical_of_isDocument hb),
    Except.ok.injEq, Except.ok.injEq, beq_iff_eq]

/-- **Strict comparison of documents is deep comparison together with one order of keys.** -/
theorem compare_strict_iff {a b : Value} (ha : IsDocument a) (hb : IsDocument b)
    (t : Option Tolerance) : compare (.str "strict") t a b = .ok true ↔
      compare (.str "deep") t a b = .ok true ∧ KeysInOrder a b := by
  show strictEqual a b = .ok true ↔ deepEqual a b = .ok true ∧ KeysInOrder a b
  rw [strictEqual_iff_tree_eq ha hb, tree_eq_iff ha hb, deepEqual_iff ha.wellKeyed hb.wellKeyed]
  constructor
  · intro h
    exact ⟨fun p x y m => (h p x y m).deep, fun p x y m => (h p x y m).order⟩
  · rintro ⟨hd, ho⟩ p x y m
    exact ⟨hd p x y m, ho p x y m⟩

/-- A mapping with an integer first, and a list with a zero below zero. -/
def reading : Value :=
  .dict [(.str "count", .int 5), (.str "drift", .list [.float (.signedZero true)])]

/-- The same numbers as floats, in a tuple, with the keys the other way round. -/
def reordered : Value :=
  .map true [(.str "drift", .tuple [.int 0]), (.str "count", .float (.ofInt 5))]

theorem isDocument_reading : IsDocument reading := by
  refine .map (by simp) (by simp [DistinctKeys, sameKey_str]) ?_
  simp only [List.forall_mem_cons]
  refine ⟨.int (lt_digitBound (k := 3) (by decide) (by decide)), .list ?_, by simp⟩
  simp only [List.forall_mem_cons]
  exact ⟨.float rfl, by simp⟩

theorem isDocument_reordered : IsDocument reordered := by
  refine .map (by simp) (by simp [DistinctKeys, sameKey_str]) ?_
  simp only [List.forall_mem_cons]
  refine ⟨.tuple ?_, .float (by decide +kernel), by simp⟩
  simp only [List.forall_mem_cons]
  exact ⟨.int (lt_digitBound (k := 0) (by decide) (by decide)), by simp⟩

theorem compare_strict_reordered :
    compare (.str "strict") none reading reordered ≠ .ok true ∧
      compare (.str "deep") none reading reordered = .ok true := by
  have deep : compare (.str "deep") none reading reordered = .ok true := by decide +kernel
  refine ⟨?_, deep⟩
  intro h
  have order := ((compare_strict_iff isDocument_reading isDocument_reordered none).1 h).2
  have keys := order [] _ _ (.here _ _) _ _ rfl rfl
  simp at keys

end Value

end Assay
