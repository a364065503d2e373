import Assay.Proofs.Comparison.Strict
import Assay.Proofs.Value.Canonical

/-!
# Keys under strict comparison

Strict comparison compares texts, and in a text a key is its spelling.  So entries stand against each
other by their place, and their keys are spelled alike; a key that is no text cannot be told from the
text of its spelling.

* `Opposite` — values at one place of two values;
* `SpelledAlike` — two keys of one spelling, which are equal unless just one of them is a text, or they
  are not-a-number;
* `compare_strict_keys` — what strict comparison says of keys.
-/

namespace Assay.Value

/-! ### One tree at every place -/

/-- Values at one place of two values: items of two sequences with one index, values of two entries with
one index, at any depth. -/
inductive Opposite : Value → Value → Value → Value → Prop
  | here (a b : Value) : Opposite a b a b
  | item {a b v w x y : Value} {xs ys : List Value} (ha : a.items? = some xs) (hb : b.items? = some ys)
      (hm : (v, w) ∈ xs.zip ys) (h : Opposite v w x y) : Opposite a b x y
  | entry {a b k l v w x y : Value} {as bs : Entries} (ha : a.entries? = some as)
      (hb : b.entries? = some bs) (hm : ((k, v), (l, w)) ∈ as.zip bs) (h : Opposite v w x y) :
      Opposite a b x y

/-- Lists that go with a third one go with each other. -/
theorem forall₂_of_common {α β γ : Type} {R : α → γ → Prop} {S : β → γ → Prop} {xs : List α}
    {ys : List β} {zs : List γ} (hx : List.Forall₂ R xs zs) (hy : List.Forall₂ S ys zs) :
    List.Forall₂ (fun x y => ∃ z, R x z ∧ S y z) xs ys := by
  induction hx generalizing ys with
  | nil =>
    cases hy
    exact .nil
  | cons hxz _ ih =>
    cases hy with
    | cons hyz hy => exact .cons ⟨_, hxz, hyz⟩ (ih hy)

/-- Two values of one tree. -/
def OneTree (a b : Value) : Prop := ∃ j, a.collapsed.toJson = .ok j ∧ b.collapsed.toJson = .ok j

theorem strictEqual_iff_oneTree {a b : Value} : strictEqual a b = .ok true ↔ OneTree a b := by
  constructor
  · intro h
    obtain ⟨s, hs, h⟩ := bind_eq_ok_iff.1 h
    obtain ⟨t, ht, h⟩ := bind_eq_ok_iff.1 h
    have same : s = t := eq_of_beq (Except.ok.inj h)
    exact exists_tree_of_canonical hs (same ▸ ht)
  · rintro ⟨j, ha, hb⟩
    have canonical {v : Value} (hv : v.collapsed.toJson = .ok j) :
        v.canonical = .ok (Json.write .compact 0 j) := by
      rw [Value.canonical, hv]
      rfl
    rw [strictEqual_of_canonical (canonical ha) (canonical hb), beq_self_eq_true]

namespace OneTree

variable {a b : Value}

theorem items {xs ys : List Value} (h : OneTree a b) (ha : a.items? = some xs) (hb : b.items? = some ys) :
    List.Forall₂ OneTree xs ys := by
  obtain ⟨j, hj, hj'⟩ := h
  obtain ⟨js, rfl, hx⟩ := exists_trees_of_items ha hj
  obtain ⟨js', same, hy⟩ := exists_trees_of_items hb hj'
  cases same
  exact forall₂_of_common hx hy

/-- Entries of one tree have keys of one spelling and values of one tree. -/
theorem entries {as bs : Entries} (h : OneTree a b) (ha : a.entries? = some as)
    (hb : b.entries? = some bs) :
    List.Forall₂ (fun e e' => (∃ s, keyName e.1 = .ok s ∧ keyName e'.1 = .ok s) ∧ OneTree e.2 e'.2)
      as bs := by
  obtain ⟨j, hj, hj'⟩ := h
  obtain ⟨ms, rfl, hx⟩ := exists_members_of_entries ha hj
  obtain ⟨ms', same, hy⟩ := exists_members_of_entries hb hj'
  cases same
  refine (forall₂_of_common hx hy).imp ?_
  rintro e e' ⟨m, ⟨hk, hv⟩, hl, hw⟩
  exact ⟨⟨m.1, hk, hl⟩, m.2, hv, hw⟩

/-- Values of one tree are so at every place. -/
theorem opposite {x y : Value} (h : OneTree a b) (m : Opposite a b x y) : OneTree x y := by
  induction m with
  | here => exact h
  | item ha hb hm _ ih => exact ih (List.forall₂_zip (h.items ha hb) hm)
  | entry ha hb hm _ ih => exact ih (List.forall₂_zip (h.entries ha hb) hm).2

end OneTree

/-- The tree of a value is of the family of the value. -/
theorem family_of_toJson {v : Value} {j : Json} (h : v.collapsed.toJson = .ok j) : j.family = v.family := by
  cases v with
  | float x =>
    rw [collapsed, collapsedDouble] at h
    split at h
    · rw [toJson] at h
      obtain ⟨_, -, rfl⟩ := map_eq_ok_iff.1 h
      rfl
    · cases h
      rfl
  | scalar e i =>
    cases e <;> cases i
    case double.float x =>
      rw [collapsed] at h
      split at h
      · rw [toJson] at h
        obtain ⟨_, -, rfl⟩ := map_eq_ok_iff.1 h
        rfl
      · cases h
        rfl
    all_goals
      cases h
      try rfl
  | int _ | list _ | tuple _ | map _ _ =>
    simp only [collapsed, toJson] at h
    obtain ⟨_, -, rfl⟩ := map_eq_ok_iff.1 h
    rfl
  | _ => cases h <;> rfl

/-! ### Keys of one spelling -/

/-- A key as it is spelled: without the wrapping of scalars, and without the mark of what is no number. -/
def bare (k : Value) : Value :=
  match k.unwrapped with
  | .float x => .float x.unmarked
  | v => v

/-- How a key is spelled: a text as it is, any other key like a scalar tree. -/
inductive Spelled (k : Value) (s : String) : Prop
  | text (hk : k.unwrapped = .str s)
  | tree (j : Json) (hk : k.bare = j.toValue) (hj : j.Short) (hs : Json.write .compact 0 j = s.toList)
      (hf : k.family ≠ "string")

theorem family_unwrapped (k : Value) : k.unwrapped.family = k.family := by
  rw [family, unwrapped_unwrapped, ← family]

theorem family_bare (k : Value) : k.bare.family = k.family := by
  rw [← family_unwrapped k, bare]
  split
  · rename_i x hx
    rw [hx]
    rfl
  · rfl

theorem isNan_bare (k : Value) : k.bare.isNan = k.isNan := by
  cases k with
  | float x => cases x <;> rfl
  | scalar e i =>
    cases e <;> cases i <;> first | rfl | (rename_i x; cases x <;> rfl)
  | _ => rfl

theorem unwrapped_of_not_isNan {k : Value} (h : k.isNan = false) : k.bare = k.unwrapped := by
  cases k with
  | float x => cases x <;> first | rfl | cases h
  | scalar e i =>
    cases e <;> cases i <;> first | rfl | (rename_i x; cases x <;> first | rfl | cases h)
  | _ => rfl

theorem spelled_of_keyName {k : Value} {s : String} (h : keyName k = .ok s) : Spelled k s := by
  have other {v : Value} (hu : k.unwrapped = v) (hv : v.family ≠ "string") : k.family ≠ "string" := by
    rwa [← family_unwrapped, hu]
  have plain {v : Value} (hu : k.unwrapped = v) (hv : ∀ x, v ≠ .float x) : k.bare = v := by
    rw [bare, hu]
    split
    · exact absurd rfl (hv _)
    · rfl
  unfold keyName at h
  split at h
  case h_1 t hu =>
    cases h
    exact .text hu
  case h_2 b hu =>
    cases h
    exact .tree (.bool b) (plain hu fun _ h => by cases h) True.intro (by cases b <;> rfl)
      (other hu (by simp [family, unwrapped]))
  case h_3 hu =>
    cases h
    exact .tree .null (plain hu fun _ h => by cases h) True.intro rfl (other hu (by simp [family, unwrapped]))
  case h_4 i hu =>
    obtain ⟨text, digits, rfl⟩ := map_eq_ok_iff.1 h
    have short : i.natAbs < digitBound := short_of_integerText digits
    rw [integerText, if_pos short] at digits
    rw [← Except.ok.inj digits]
    exact .tree (.int i) (plain hu fun _ h => by cases h) short (Letter.spell_char _)
      (other hu (by simp [family, unwrapped]))
  case h_5 x hu =>
    cases h
    have text : Json.write .compact 0 (.float x.unmarked : Json) = (Layout.json.text x).toList := by
      rw [Json.write, Letter.spell_char]
      cases x <;> exact String.toList_ofList.symm
    exact .tree (.float x.unmarked) (by rw [bare, hu]; rfl) (short_unmarked x) text
      (other hu (by simp [family, unwrapped]))
  case h_6 => cases h

/-- Keys of one spelling are one, unless only one of them is a text. -/
theorem bare_eq_of_keyName {k l : Value} {s : String} (hk : keyName k = .ok s)
    (hl : keyName l = .ok s) (hf : k.family = "string" ↔ l.family = "string") : k.bare = l.bare := by
  have text {v : Value} (hv : v.unwrapped = .str s) : v.family = "string" ∧ v.bare = .str s := by
    refine ⟨?_, by rw [bare, hv]⟩
    rw [← family_unwrapped, hv]
    rfl
  cases spelled_of_keyName hk with
  | text hk =>
    cases spelled_of_keyName hl with
    | text hl => rw [(text hk).2, (text hl).2]
    | tree _ _ _ _ hlf => exact absurd (hf.1 (text hk).1) hlf
  | tree i hk hi his hkf =>
    cases spelled_of_keyName hl with
    | text hl => exact absurd (hf.2 (text hl).1) hkf
    | tree j hl hj hjs =>
      rw [hk, hl, Json.write_injective Json.readable_compact hi hj (his.trans hjs.symm)]

theorem keyClass?_unwrapped (k : Value) : keyClass? k.unwrapped = keyClass? k := by
  cases k with
  | scalar e i => cases e <;> cases i <;> rfl
  | _ => rfl

theorem keyClass?_isSome_of_keyName {k : Value} {s : String} (h : keyName k = .ok s) :
    (keyClass? k).isSome = true := by
  rw [← keyClass?_unwrapped]
  unfold keyName at h
  split at h
  case h_6 => cases h
  all_goals
    rename_i hu
    rw [hu]
    rfl

theorem ne_foreign_of_keyName {k : Value} {s : String} (h : keyName k = .ok s) (o : Foreign) :
    k ≠ .foreign o := by
  rintro rfl
  cases h

/-- Keys of one spelling and one family are compared as leaves. -/
theorem deepEqual_of_keyName {k l : Value} {s : String} (hk : keyName k = .ok s) (hl : keyName l = .ok s)
    (hf : k.family = l.family) : deepEqual k l = .ok (sameKey k l && !k.isNan) := by
  have sides : deepEqual k l = leafEquals k l := by
    cases k with
    | list _ | tuple _ | map _ _ | foreign _ => cases hk
    | _ => exact if_pos hf
  rw [sides, leafEquals_of_not_foreign (ne_foreign_of_keyName hk) (ne_foreign_of_keyName hl)]

/-- Keys that are one are equal, unless they are not-a-number. -/
theorem deepEqual_of_bare_eq {k l : Value} {s : String} (hk : keyName k = .ok s) (hl : keyName l = .ok s)
    (h : k.bare = l.bare) : deepEqual k l = .ok (!k.isNan) := by
  rw [deepEqual_of_keyName hk hl (by rw [← family_bare k, h, family_bare])]
  cases number : k.isNan with
  | true => rw [Bool.not_true, Bool.and_false]
  | false =>
    have number' : l.isNan = false := by rw [← isNan_bare l, ← h, isNan_bare, number]
    have leaf (xs : List Value) : k ≠ .tuple xs := by
      rintro rfl
      cases hk
    have one : keyClass? k = keyClass? l := by
      rw [← keyClass?_unwrapped k, ← unwrapped_of_not_isNan number, h, unwrapped_of_not_isNan number',
        keyClass?_unwrapped]
    have same : sameKey k l = true := by
      rw [sameKey_of_not_tuple leaf, sameLeaf_iff]
      exact ⟨one, keyClass?_isSome_of_keyName hk⟩
    rw [same, Bool.true_and]

/-- What strict comparison says of two keys at one place. -/
structure SpelledAlike (k l : Value) : Prop where
  spelling : ∃ s, keyName k = .ok s ∧ keyName l = .ok s
  /-- They are equal, and then of one family, unless only one is a text or they are not-a-number. -/
  equal_iff : deepEqual k l = .ok true ↔
    (k.family = "string" ↔ l.family = "string") ∧ k.isNan = false

theorem spelledAlike_of_keyName {k l : Value} (h : ∃ s, keyName k = .ok s ∧ keyName l = .ok s) :
    SpelledAlike k l where
  spelling := h
  equal_iff := by
    obtain ⟨s, hk, hl⟩ := h
    constructor
    · intro he
      have hf := family_eq_of_deepEqual he
      rw [deepEqual_of_bare_eq hk hl (bare_eq_of_keyName hk hl (by rw [hf]))] at he
      exact ⟨by rw [hf], by simpa using he⟩
    · rintro ⟨hf, hn⟩
      rw [deepEqual_of_bare_eq hk hl (bare_eq_of_keyName hk hl hf), hn, Bool.not_false]

/-! ### Strict comparison -/

/-- What strict comparison says of two values at one place and of their keys. -/
structure StrictKeysAt (x y : Value) : Prop where
  family : x.family = y.family
  keys : ∀ as bs, x.entries? = some as → y.entries? = some bs →
    List.Forall₂ (fun e e' => SpelledAlike e.1 e'.1) as bs

theorem OneTree.strictKeysAt {x y : Value} (h : OneTree x y) : StrictKeysAt x y where
  family := by
    obtain ⟨j, hx, hy⟩ := h
    rw [← family_of_toJson hx, family_of_toJson hy]
  keys _ _ hx hy := (h.entries hx hy).imp fun _ _ he => spelledAlike_of_keyName he.1

/-- A mapping from a key is strictly equal to that from the spelling of the key. -/
theorem strictEqual_spelled (frozen : Bool) {k v : Value} {s : String} {c : List Char}
    (hk : keyName k = .ok s) (hv : v.canonical = .ok c) :
    strictEqual (.map frozen [(k, v)]) (.map frozen [(.str s, v)]) = .ok true := by
  obtain ⟨j, hj, -⟩ := map_eq_ok_iff.1 hv
  have members (l : Value) (hl : keyName l = .ok s) :
      toJsonMembers [(l, v.collapsed)] = .ok [(s, j)] := by
    rw [toJsonMembers, hl, hj]
    rfl
  have tree (l : Value) (hl : keyName l = .ok s) :
      (Value.map frozen [(l, v)]).collapsed.toJson = .ok (.obj [(s, j)]) :=
    congrArg (Except.map Json.obj) (members l hl)
  exact strictEqual_iff_oneTree.2 ⟨_, tree k hk, tree _ (keyName_str s)⟩

/-- **Strictly equal values have entries with keys of one spelling at every place.**  The keys are equal
unless only one is a text or they are not-a-number, and any key is taken for the text of its spelling. -/
theorem compare_strict_keys (t : Option Tolerance) :
    (∀ a b, compare (.str "strict") t a b = .ok true → ∀ x y, Opposite a b x y → StrictKeysAt x y) ∧
      ∀ frozen k s v, keyName k = .ok s → (∃ c, v.canonical = .ok c) →
        compare (.str "strict") t (.map frozen [(k, v)]) (.map frozen [(.str s, v)]) = .ok true := by
  constructor
  · intro a b h x y m
    exact ((strictEqual_iff_oneTree.1 h).opposite m).strictKeysAt
  · rintro frozen k s v hk ⟨c, hv⟩
    exact strictEqual_spelled frozen hk hv

/-- An integer as key, taken for a text. -/
theorem compare_strict_spelled_key :
    compare (.str "strict") none (.dict [(.int 1, .str "x")]) (.dict [(.str "1", .str "x")]) = .ok true ∧
      deepEqual (.int 1) (.str "1") = .ok false ∧ family (.int 1 : Value) ≠ family (.str "1") := by
  exact ⟨by decide +kernel, by rfl, by decide⟩

end Assay.Value
