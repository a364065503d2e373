import Assay.Proofs.Json.Tree
import Assay.Proofs.Value.Position
import Assay.Proofs.Value.Writable

/-!
# Canonical texts

The canonical text of a value is that of a tree, and the text tells the tree.  So values with one
canonical text have one tree: sequences have trees of one length, and mappings have entries with keys of
the same spelling at every place.

* `short_of_toJson` — no tree of a value has an integer with too many digits;
* `exists_tree_of_canonical` — values with one canonical text have one tree;
* `exists_trees_of_items`, `exists_members_of_entries` — the tree of a sequence and of a mapping.
-/

namespace Assay.Value

/-! ### Trees without long integers -/

theorem short_unmarked (x : Double) : (Json.float x.unmarked : Json).Short := by
  cases x <;> trivial

theorem short_of_integerText {i : Int} {text : String} (h : integerText i = .ok text) :
    (Json.int i : Json).Short :=
  (integerText_succeedsIff i).isOk_iff.1 ⟨text, h⟩

mutual

/-- The tree of a value has no integer with too many digits. -/
theorem short_of_toJson : ∀ (v : Value) {j : Json}, v.toJson = .ok j → j.Short
  | .absent => fun h => by cases h
  | .null => fun h => by
    cases h
    exact True.intro
  | .bool _ => fun h => by
    cases h
    exact True.intro
  | .int i => fun h => by
    rw [toJson] at h
    obtain ⟨text, hi, rfl⟩ := map_eq_ok_iff.1 h
    exact short_of_integerText hi
  | .float x => fun h => by
    cases h
    exact short_unmarked x
  | .str _ => fun h => by
    cases h
    exact True.intro
  | .list xs => fun h => by
    rw [toJson] at h
    obtain ⟨js, hx, rfl⟩ := map_eq_ok_iff.1 h
    exact short_of_toJsonAll xs hx
  | .tuple xs => fun h => by
    rw [toJson] at h
    obtain ⟨js, hx, rfl⟩ := map_eq_ok_iff.1 h
    exact short_of_toJsonAll xs hx
  | .map true _ => fun h => by cases h
  | .map false es => fun h => by
    rw [toJson] at h
    obtain ⟨ms, he, rfl⟩ := map_eq_ok_iff.1 h
    exact short_of_toJsonMembers es he
  | .bytes _ => fun h => by cases h
  | .date _ => fun h => by cases h
  | .moment _ => fun h => by cases h
  | .foreign _ => fun h => by cases h
  | .scalar e item => fun h => by
    cases e <;> cases item <;> cases h
    · exact short_unmarked _
    · exact True.intro
  | .array _ _ => fun h => by cases h

theorem short_of_toJsonAll : ∀ (xs : List Value) {js : List Json}, toJsonAll xs = .ok js →
    Json.ShortItems js
  | [] => fun h => by
    cases h
    exact True.intro
  | x :: xs => fun h => by
    rw [toJsonAll] at h
    obtain ⟨j, hx, h⟩ := bind_eq_ok_iff.1 h
    obtain ⟨js, hxs, ⟨⟩⟩ := bind_eq_ok_iff.1 h
    exact ⟨short_of_toJson x hx, short_of_toJsonAll xs hxs⟩

theorem short_of_toJsonMembers : ∀ (es : List (Value × Value)) {ms : List (String × Json)},
    toJsonMembers es = .ok ms → Json.ShortMembers ms
  | [] => fun h => by
    cases h
    exact True.intro
  | (k, v) :: es => fun h => by
    rw [toJsonMembers] at h
    obtain ⟨name, -, h⟩ := bind_eq_ok_iff.1 h
    obtain ⟨j, hv, h⟩ := bind_eq_ok_iff.1 h
    obtain ⟨ms, hes, ⟨⟩⟩ := bind_eq_ok_iff.1 h
    exact ⟨short_of_toJson v hv, short_of_toJsonMembers es hes⟩

end

/-! ### The tree of a canonical text -/

/-- **Values with one canonical text have one tree.** -/
theorem exists_tree_of_canonical {a b : Value} {s : List Char} (ha : a.canonical = .ok s)
    (hb : b.canonical = .ok s) : ∃ j, a.collapsed.toJson = .ok j ∧ b.collapsed.toJson = .ok j := by
  obtain ⟨i, hi, hs⟩ := map_eq_ok_iff.1 ha
  obtain ⟨j, hj, ht⟩ := map_eq_ok_iff.1 hb
  obtain rfl := Json.write_injective Json.readable_compact (short_of_toJson _ hi) (short_of_toJson _ hj)
    (hs.trans ht.symm)
  exact ⟨i, hi, hj⟩

/-- The trees of a sequence are those of its items. -/
theorem toJsonAll_eq_ok {xs : List Value} {js : List Json} (h : toJsonAll xs = .ok js) :
    List.Forall₂ (fun x j => x.toJson = .ok j) xs js := by
  induction xs generalizing js with
  | nil =>
    cases h
    exact .nil
  | cons x xs ih =>
    rw [toJsonAll] at h
    obtain ⟨j, hj, h⟩ := bind_eq_ok_iff.1 h
    obtain ⟨js, hjs, ⟨⟩⟩ := bind_eq_ok_iff.1 h
    exact .cons hj (ih hjs)

/-- The members of a mapping have the spellings of its keys and the trees of its values. -/
theorem toJsonMembers_eq_ok {es : Entries} {ms : List (String × Json)} (h : toJsonMembers es = .ok ms) :
    List.Forall₂ (fun e m => keyName e.1 = .ok m.1 ∧ e.2.toJson = .ok m.2) es ms := by
  induction es generalizing ms with
  | nil =>
    cases h
    exact .nil
  | cons e es ih =>
    obtain ⟨k, v⟩ := e
    rw [toJsonMembers] at h
    obtain ⟨name, hk, h⟩ := bind_eq_ok_iff.1 h
    obtain ⟨j, hj, h⟩ := bind_eq_ok_iff.1 h
    obtain ⟨ms, hms, ⟨⟩⟩ := bind_eq_ok_iff.1 h
    exact .cons ⟨hk, hj⟩ (ih hms)

theorem collapsedEntries_eq_map (es : Entries) :
    collapsedEntries es = es.map fun e => (e.1, e.2.collapsed) := by
  induction es with
  | nil => rfl
  | cons e es ih =>
    obtain ⟨k, v⟩ := e
    rw [collapsedEntries, ih, List.map_cons]

theorem forall₂_of_toJsonAll {xs : List Value} {js : List Json}
    (h : toJsonAll (collapsedAll xs) = .ok js) :
    List.Forall₂ (fun x j => x.collapsed.toJson = .ok j) xs js := by
  rw [collapsedAll_eq_map] at h
  exact List.forall₂_map_left_iff.1 (toJsonAll_eq_ok h)

theorem forall₂_of_toJsonMembers {es : Entries} {ms : List (String × Json)}
    (h : toJsonMembers (collapsedEntries es) = .ok ms) :
    List.Forall₂ (fun e m => keyName e.1 = .ok m.1 ∧ e.2.collapsed.toJson = .ok m.2) es ms := by
  rw [collapsedEntries_eq_map] at h
  exact List.forall₂_map_left_iff.1 (toJsonMembers_eq_ok h)

/-- The tree of a sequence has the trees of its items. -/
theorem exists_trees_of_items {v : Value} {xs : List Value} {j : Json} (hx : v.items? = some xs)
    (h : v.collapsed.toJson = .ok j) :
    ∃ js, j = .arr js ∧ List.Forall₂ (fun x j => x.collapsed.toJson = .ok j) xs js := by
  have tree : (toJsonAll (collapsedAll xs)).map .arr = .ok j := by
    rcases items?_eq_some hx with rfl | rfl <;> exact h
  obtain ⟨js, hjs, rfl⟩ := map_eq_ok_iff.1 tree
  exact ⟨js, rfl, forall₂_of_toJsonAll hjs⟩

/-- The tree of a mapping has the spellings of its keys with the trees of its values. -/
theorem exists_members_of_entries {v : Value} {es : Entries} {j : Json} (he : v.entries? = some es)
    (h : v.collapsed.toJson = .ok j) : ∃ ms, j = .obj ms ∧
      List.Forall₂ (fun e m => keyName e.1 = .ok m.1 ∧ e.2.collapsed.toJson = .ok m.2) es ms := by
  obtain ⟨frozen, rfl⟩ := entries?_eq_some he
  obtain ⟨ms, hms, rfl⟩ := map_eq_ok_iff.1 h
  exact ⟨ms, rfl, forall₂_of_toJsonMembers hms⟩

end Assay.Value
