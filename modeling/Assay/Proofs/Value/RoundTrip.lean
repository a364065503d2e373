import Assay.Proofs.Comparison.Strict

/-!
# Reading canonical texts

The canonical text of a document is read as the value of its tree.  That value is a document with the
same tree, so it is deeply equal to the first, lists its keys in the same order, and has the same
canonical text.  The letters of the texts may be characters or any code points, surrogates that stand
alone among them: neither the writer nor the reader touches these.

* `ofPairs_of_distinct` — inserting entries with different keys keeps them as they are;
* `IsDocument.toValue_tree` — the value of the tree of a document;
* `read_canonical` — what reading a canonical text gives.
-/

namespace Assay.Value

variable {τ χ : Type} [DecidableEq τ]

/-! ### Entries with different keys -/

theorem insert_of_not_hasKey {key value : Value τ} {es : Entries τ} (h : hasKey key es = false) :
    insert key value es = es ++ [(key, value)] := by
  induction es with
  | nil => rfl
  | cons e es ih =>
    obtain ⟨k, v⟩ := e
    rw [hasKey, List.any_cons, Bool.or_eq_false_iff] at h
    rw [insert, if_neg (Bool.eq_false_iff.1 h.1), ih h.2, List.cons_append]

/-- Insertion in order keeps entries that all have different keys. -/
theorem ofPairs_of_distinct {es : Entries τ} (h : DistinctKeys es) : ofPairs es = es := by
  have inserted (done rest : Entries τ) (hd : DistinctKeys (done ++ rest)) :
      rest.foldl (fun es p => insert p.1 p.2 es) done = done ++ rest := by
    induction rest generalizing done with
    | nil => exact (List.append_nil done).symm
    | cons e rest ih =>
      obtain ⟨-, -, apart⟩ := List.pairwise_append.1 hd
      have fresh : hasKey e.1 done = false := by
        rw [hasKey, List.any_eq_false]
        intro d hdone
        rw [apart d hdone e List.mem_cons_self]
        exact Bool.false_ne_true
      rw [List.foldl_cons, insert_of_not_hasKey fresh, ih, List.append_assoc, List.singleton_append]
      rwa [List.append_assoc, List.singleton_append]
  exact inserted [] es h

/-! ### The value of a tree -/

variable [Texts τ χ]

/-- The members of a mapping with texts as keys stand for its keys with the values of their trees. -/
theorem toPairs_treeMembers {es : Entries τ} (hk : ∀ e ∈ es, ∃ s, e.1 = .str s) :
    Json.toPairs (treeMembers es) = es.map fun e => (e.1, e.2.tree.toValue) := by
  rw [Json.toPairs_eq_map, treeMembers_eq_map, List.map_map]
  apply List.map_congr_left
  intro e he
  obtain ⟨s, hs⟩ := hk e he
  rw [Function.comp, hs]
  rfl

/-- The tree of a mapping stands for its keys, in their order, with the values of their trees. -/
theorem toValue_tree_map {frozen : Bool} {es : Entries τ} (hk : ∀ e ∈ es, ∃ s, e.1 = .str s)
    (hd : DistinctKeys es) :
    (Value.map frozen es).tree.toValue = .dict (es.map fun e => (e.1, e.2.tree.toValue)) := by
  rw [tree, Json.toValue, toPairs_treeMembers hk, ofPairs_of_distinct]
  rwa [DistinctKeys, List.pairwise_map]

/-- The tree of a sequence stands for the list of the values of its trees. -/
theorem toValue_arr_trees (xs : List (Value τ)) :
    (Json.arr (trees xs)).toValue = .list (xs.map fun x => x.tree.toValue) := by
  rw [Json.toValue, Json.toValues_eq_map, trees_eq_map, List.map_map]
  rfl

theorem toValue_numericKey {x : Double} (hx : x.isFinite = true) :
    IsDocument ((numericKeyOfDouble x).tree : Json τ).toValue ∧
      ((numericKeyOfDouble x).tree : Json τ).toValue.tree = (numericKeyOfDouble x).tree := by
  cases h : x.toInt? with
  | some i =>
    have key : numericKeyOfDouble x = .whole i := by
      rw [numericKeyOfDouble, h]
    rw [key]
    exact ⟨.int (Double.natAbs_lt_digitBound h), rfl⟩
  | none =>
    have key : numericKeyOfDouble x = .part x := by
      rw [numericKeyOfDouble, h]
    rw [key]
    refine ⟨.float hx, ?_⟩
    rw [NumericKey.tree, Json.toValue, tree, key, NumericKey.tree]

/-- **The tree of a document stands for a document with that tree.** -/
theorem IsDocument.toValue_tree {v : Value τ} (h : IsDocument v) :
    IsDocument v.tree.toValue ∧ v.tree.toValue.tree = v.tree := by
  have items {xs : List (Value τ)}
      (ih : ∀ x ∈ xs, IsDocument x.tree.toValue ∧ x.tree.toValue.tree = x.tree) :
      IsDocument (Json.arr (trees xs)).toValue ∧
        (Json.arr (trees xs)).toValue.tree = .arr (trees xs) := by
    rw [toValue_arr_trees, tree, trees_eq_map, trees_eq_map, List.map_map]
    refine ⟨.list ?_, congrArg Json.arr (List.map_congr_left fun x hx => (ih x hx).2)⟩
    intro y hy
    obtain ⟨x, hx, rfl⟩ := List.mem_map.1 hy
    exact (ih x hx).1
  induction h with
  | null => exact ⟨.null, rfl⟩
  | bool b => exact ⟨.bool b, rfl⟩
  | int hi => exact ⟨.int hi, rfl⟩
  | float hx => exact toValue_numericKey hx
  | str s => exact ⟨.str s, rfl⟩
  | list _ ih => exact items ih
  | tuple _ ih => exact items ih
  | @map frozen es hk hd _ ih =>
    rw [toValue_tree_map hk hd]
    constructor
    · refine .map ?_ (by rwa [DistinctKeys, List.pairwise_map]) ?_
      · intro e he
        obtain ⟨d, hmem, rfl⟩ := List.mem_map.1 he
        exact hk d hmem
      · intro e he
        obtain ⟨d, hmem, rfl⟩ := List.mem_map.1 he
        exact (ih d hmem).1
    · rw [tree, tree, treeMembers_eq_map, treeMembers_eq_map, List.map_map]
      exact congrArg Json.obj (List.map_congr_left fun e he => Prod.ext rfl (ih e he).2)

/-! ### Canonical texts -/

/-- **The canonical text of a document is read as a deeply equal value**, whatever letters its texts are
made of.  It lists its keys in the same order at every depth and has that text again. -/
theorem read_canonical [Letter χ] {v : Value τ} (h : IsDocument v) :
    ∃ (text : List χ) (w : Value τ), v.canonical = .ok text ∧
      (Json.parseChars text).map Json.toValue = .ok w ∧
        deepEqual w v = .ok true ∧ KeysInOrder w v ∧ w.canonical = .ok text := by
  obtain ⟨hw, same⟩ := h.toValue_tree
  have text := canonical_of_isDocument h
  have read := Json.parseChars_write Json.readable_compact (short_tree h)
  have strict := (tree_eq_iff hw h).1 same
  refine ⟨_, v.tree.toValue, text, by rw [read]; rfl, ?_, fun p x y m => (strict p x y m).order, ?_⟩
  · exact (deepEqual_iff hw.wellKeyed h.wellKeyed).2 fun p x y m => (strict p x y m).deep
  · rw [← text]
    exact (canonical_eq_iff hw h).2 same

/-- A text of code points. -/
def points (s : String) : List CodePoint := Letter.spell s.toList

/-- A mapping that cannot be changed, with a quote and a control character in a key, a float past the
exact integers, a zero below zero, a character outside the first plane in a tuple, and the two halves of
it as letters of their own. -/
def quoted : Value (List CodePoint) :=
  .map true [(.str (points "\"\\\x01"), .float (.ofInt 10000000000000000000000)),
    (.str (points "a"), .tuple [.float (.signedZero true), .str (points "😀\n"), .null]),
    (.str [], .dict [(.str [.surrogate 0xD83D (by decide), .surrogate 0xDE00 (by decide)], .bool true)])]

theorem isDocument_quoted : IsDocument quoted := by
  refine .map (by simp) (by simp [DistinctKeys, sameKey_str, points, Letter.spell]) ?_
  simp only [List.forall_mem_cons]
  refine ⟨.float (by decide +kernel), .tuple ?_, .map (by simp) (by simp [DistinctKeys]) ?_, by simp⟩
  · simp only [List.forall_mem_cons]
    exact ⟨.float rfl, .str _, .null, by simp⟩
  · simp only [List.forall_mem_cons]
    exact ⟨.bool true, by simp⟩

theorem read_canonical_quoted : IsDocument quoted ∧
    ∃ (text : List CodePoint) (w : Value (List CodePoint)), quoted.canonical = .ok text ∧
      (Json.parseChars text).map Json.toValue = .ok w ∧
        deepEqual w quoted = .ok true ∧ KeysInOrder w quoted ∧ w.canonical = .ok text :=
  ⟨isDocument_quoted, read_canonical isDocument_quoted⟩

end Assay.Value
