import Assay.Proofs.Value.Occurs
import Assay.Value.Key

/-!
# Sets of keys

Sameness of keys is symmetric and transitive, because two keys that are no tuples are the same
exactly when they have one class.  A mapping that was made by insertion has pairwise
different keys, and for such mappings two facts hold that the comparisons rest on:

* `sameKeySet_iff` — the check by number and inclusion is equality of the two sets of keys;
* `lookup_eq_some_of_mem` — the value under a key of an entry is the value of that entry.
-/

namespace Assay.Value

variable {τ : Type}

/-! ### Classes of keys -/

theorem numericKey?_eq_some_iff {v : Value τ} {n : NumericKey} :
    numericKey? v = some n ↔ keyClass? v = some (.number n) := by
  unfold numericKey?
  split <;> simp_all

theorem textKey?_eq_some_iff {v : Value τ} {s : τ} :
    textKey? v = some s ↔ keyClass? v = some (.text s) := by
  unfold textKey?
  split <;> simp_all

theorem keyClass?_tuple (xs : List (Value τ)) : keyClass? (.tuple xs) = none := rfl

variable [DecidableEq τ]

theorem sameLeaf_iff (a b : Value τ) :
    sameLeaf a b = true ↔ keyClass? a = keyClass? b ∧ (keyClass? a).isSome = true := by
  unfold sameLeaf
  cases keyClass? a with
  | none => simp
  | some c =>
    cases keyClass? b with
    | none => simp
    | some d => simp

theorem sameLeaf_of_keyClass {a b : Value τ} {c d : KeyClass τ} (ha : a.keyClass? = some c)
    (hb : b.keyClass? = some d) : sameLeaf a b = (c == d) := by
  rw [sameLeaf, ha, hb]

/-! ### Symmetry and transitivity -/

theorem sameLeaf_symm {a b : Value τ} (h : sameLeaf a b = true) : sameLeaf b a = true := by
  obtain ⟨he, hs⟩ := (sameLeaf_iff a b).1 h
  exact (sameLeaf_iff b a).2 ⟨he.symm, he ▸ hs⟩

theorem sameLeaf_trans {a b c : Value τ} (hab : sameLeaf a b = true) (hbc : sameLeaf b c = true) :
    sameLeaf a c = true := by
  obtain ⟨he, hs⟩ := (sameLeaf_iff a b).1 hab
  obtain ⟨he', -⟩ := (sameLeaf_iff b c).1 hbc
  exact (sameLeaf_iff a c).2 ⟨he.trans he', hs⟩

/-- A tuple is the same key as no value that is none. -/
theorem sameKey_tuple_left {xs : List (Value τ)} {b : Value τ} (h : sameKey (.tuple xs) b = true) :
    ∃ ys, b = .tuple ys ∧ sameKeys xs ys = true := by
  cases b with
  | tuple ys => exact ⟨ys, rfl, by simpa [sameKey] using h⟩
  | _ =>
    rw [sameKey, sameLeaf_iff] at h
    · exact absurd h.2 (by simp [keyClass?_tuple])
    · simp

theorem sameKey_of_not_tuple {a b : Value τ} (ha : ∀ xs, a ≠ .tuple xs) :
    sameKey a b = sameLeaf a b := by
  cases a with
  | tuple xs => exact absurd rfl (ha xs)
  | _ => simp [sameKey]

/-- Only a tuple is the same key as a tuple. -/
theorem not_tuple_of_sameKey {a b : Value τ} (ha : ∀ xs, a ≠ .tuple xs) (h : sameKey a b = true) :
    ∀ ys, b ≠ .tuple ys := by
  rintro ys rfl
  rw [sameKey_of_not_tuple ha] at h
  exact absurd ((sameLeaf_iff _ _).1 (sameLeaf_symm h)).2 (by simp [keyClass?_tuple])

mutual

theorem sameKey_symm : ∀ {a b : Value τ}, sameKey a b = true → sameKey b a = true
  | .tuple xs, b, h => by
    obtain ⟨ys, rfl, hs⟩ := sameKey_tuple_left h
    rw [sameKey]
    exact sameKeys_symm hs
  | .absent, b, h | .null, b, h | .bool _, b, h | .int _, b, h | .float _, b, h | .str _, b, h | .list _, b, h
  | .map _ _, b, h | .bytes _, b, h | .date _, b, h | .moment _, b, h | .foreign _, b, h
  | .scalar _ _, b, h | .array _ _, b, h => by
    have hb := not_tuple_of_sameKey (by simp) h
    rw [sameKey_of_not_tuple (by simp)] at h
    rw [sameKey_of_not_tuple hb]
    exact sameLeaf_symm h

theorem sameKeys_symm : ∀ {xs ys : List (Value τ)}, sameKeys xs ys = true → sameKeys ys xs = true
  | [], [], _ => rfl
  | x :: xs, y :: ys, h => by
    rw [sameKeys, Bool.and_eq_true] at h ⊢
    exact ⟨sameKey_symm h.1, sameKeys_symm h.2⟩
  | [], _ :: _, h => by simp [sameKeys] at h
  | _ :: _, [], h => by simp [sameKeys] at h

end

mutual

theorem sameKey_trans : ∀ {a b c : Value τ}, sameKey a b = true → sameKey b c = true →
    sameKey a c = true
  | .tuple xs, b, c, hab, hbc => by
    obtain ⟨ys, rfl, hxy⟩ := sameKey_tuple_left hab
    obtain ⟨zs, rfl, hyz⟩ := sameKey_tuple_left hbc
    rw [sameKey]
    exact sameKeys_trans hxy hyz
  | .absent, b, c, hab, hbc | .null, b, c, hab, hbc | .bool _, b, c, hab, hbc | .int _, b, c, hab, hbc
  | .float _, b, c, hab, hbc | .str _, b, c, hab, hbc | .list _, b, c, hab, hbc
  | .map _ _, b, c, hab, hbc | .bytes _, b, c, hab, hbc | .date _, b, c, hab, hbc
  | .moment _, b, c, hab, hbc | .foreign _, b, c, hab, hbc | .scalar _ _, b, c, hab, hbc
  | .array _ _, b, c, hab, hbc => by
    have hb := not_tuple_of_sameKey (by simp) hab
    rw [sameKey_of_not_tuple (by simp)] at hab ⊢
    rw [sameKey_of_not_tuple hb] at hbc
    exact sameLeaf_trans hab hbc

theorem sameKeys_trans : ∀ {xs ys zs : List (Value τ)}, sameKeys xs ys = true → sameKeys ys zs = true →
    sameKeys xs zs = true
  | [], [], [], _, _ => rfl
  | x :: xs, y :: ys, z :: zs, hxy, hyz => by
    rw [sameKeys, Bool.and_eq_true] at hxy hyz ⊢
    exact ⟨sameKey_trans hxy.1 hyz.1, sameKeys_trans hxy.2 hyz.2⟩
  | [], _ :: _, _, h, _ => by simp [sameKeys] at h
  | _ :: _, [], _, h, _ => by simp [sameKeys] at h
  | [], [], _ :: _, _, h => by simp [sameKeys] at h
  | _ :: _, _ :: _, [], _, h => by simp [sameKeys] at h

end

/-! ### Pairwise different keys -/

/-- The keys of entries are pairwise different. -/
def DistinctKeys (es : Entries τ) : Prop := es.Pairwise fun e e' => sameKey e.1 e'.1 = false

/-- Every mapping that occurs in a value has pairwise different keys. -/
def WellKeyed (v : Value τ) : Prop := ∀ frozen es, Occurs (.map frozen es) v → DistinctKeys es

theorem wellKeyed_map {frozen : Bool} {es : Entries τ} :
    WellKeyed (.map frozen es) ↔ DistinctKeys es ∧ ∀ e ∈ es, WellKeyed e.2 := by
  constructor
  · intro h
    exact ⟨h frozen es (.self _), fun e he g fs ho => h g fs (.map he ho)⟩
  · rintro ⟨hd, h⟩ g fs ho
    cases ho with
    | self => exact hd
    | map he ho => exact h _ he g fs ho

theorem wellKeyed_list {xs : List (Value τ)} : WellKeyed (.list xs) ↔ ∀ x ∈ xs, WellKeyed x := by
  constructor
  · intro h x hx g fs ho
    exact h g fs (.list hx ho)
  · rintro h g fs ho
    cases ho with
    | list hx ho => exact h _ hx g fs ho

theorem wellKeyed_tuple {xs : List (Value τ)} : WellKeyed (.tuple xs) ↔ ∀ x ∈ xs, WellKeyed x := by
  constructor
  · intro h x hx g fs ho
    exact h g fs (.tuple hx ho)
  · rintro h g fs ho
    cases ho with
    | tuple hx ho => exact h _ hx g fs ho

/-- A value that is no sequence and no mapping has no keys. -/
theorem wellKeyed_leaf {v : Value τ} (hl : ∀ xs, v ≠ .list xs) (ht : ∀ xs, v ≠ .tuple xs)
    (hm : ∀ frozen es, v ≠ .map frozen es) : WellKeyed v := by
  intro g fs ho
  cases ho with
  | self => exact absurd rfl (hm g fs)
  | list => exact absurd rfl (hl _)
  | tuple => exact absurd rfl (ht _)
  | map => exact absurd rfl (hm _ _)

theorem hasKey_iff {key : Value τ} {es : Entries τ} :
    hasKey key es = true ↔ ∃ e ∈ es, sameKey e.1 key = true := by
  rw [hasKey, List.any_eq_true]

/-- A value that is found stands in an entry under the key. -/
theorem mem_of_lookup {key v : Value τ} {es : Entries τ} (h : lookup key es = some v) :
    ∃ k, (k, v) ∈ es ∧ sameKey k key = true := by
  induction es with
  | nil => simp [lookup] at h
  | cons e es ih =>
    obtain ⟨k, w⟩ := e
    rw [lookup] at h
    split at h
    · rename_i hk
      cases h
      exact ⟨k, List.mem_cons_self, hk⟩
    · obtain ⟨k', hm, hs⟩ := ih h
      exact ⟨k', List.mem_cons_of_mem _ hm, hs⟩

/-- Among different keys the value under a key of an entry is the value of that entry. -/
theorem lookup_eq_some_of_mem {es : Entries τ} (hd : DistinctKeys es) {k v key : Value τ}
    (hm : (k, v) ∈ es) (hk : sameKey k key = true) : lookup key es = some v := by
  induction es with
  | nil => cases hm
  | cons e es ih =>
    obtain ⟨k', w⟩ := e
    obtain ⟨hhead, htail⟩ := List.pairwise_cons.1 hd
    rw [lookup]
    rcases List.mem_cons.1 hm with he | hm'
    · cases he
      rw [if_pos hk]
    · have hne : sameKey k' key = false := by
        rw [Bool.eq_false_iff]
        intro hs
        have := sameKey_trans hs (sameKey_symm hk)
        rw [hhead (k, v) hm'] at this
        exact absurd this (by simp)
      rw [hne]
      exact ih htail hm'

/-! ### Inclusion and number -/

/-- Different keys that all stand in a second mapping are at most as many as its entries, and they
are fewer when some entry of it is left over. -/
theorem length_le_of_keys {as bs : Entries τ} (hd : DistinctKeys as)
    (h : ∀ e ∈ as, ∃ e' ∈ bs, sameKey e.1 e'.1 = true) : as.length ≤ bs.length := by
  induction as generalizing bs with
  | nil => exact Nat.zero_le _
  | cons a as ih =>
    obtain ⟨hhead, htail⟩ := List.pairwise_cons.1 hd
    obtain ⟨b, hb, hab⟩ := h a List.mem_cons_self
    obtain ⟨l, r, rfl⟩ := List.append_of_mem hb
    have rest : ∀ e ∈ as, ∃ e' ∈ l ++ r, sameKey e.1 e'.1 = true := by
      intro e he
      obtain ⟨e', he', hs⟩ := h e (List.mem_cons_of_mem _ he)
      rcases List.mem_append.1 he' with hl | hr
      · exact ⟨e', List.mem_append_left r hl, hs⟩
      · rcases List.mem_cons.1 hr with rfl | hr
        · have := sameKey_trans hab (sameKey_symm hs)
          rw [hhead e he] at this
          exact absurd this (by simp)
        · exact ⟨e', List.mem_append_right l hr, hs⟩
    have := ih htail rest
    simp only [List.length_append, List.length_cons] at this ⊢
    omega

theorem keys_covered {as bs : Entries τ} (hd : DistinctKeys as)
    (h : ∀ e ∈ as, ∃ e' ∈ bs, sameKey e.1 e'.1 = true) (hl : bs.length ≤ as.length) :
    ∀ e' ∈ bs, ∃ e ∈ as, sameKey e.1 e'.1 = true := by
  intro b hb
  refine Classical.byContradiction fun hn => ?_
  obtain ⟨l, r, rfl⟩ := List.append_of_mem hb
  have rest : ∀ e ∈ as, ∃ e' ∈ l ++ r, sameKey e.1 e'.1 = true := by
    intro e he
    obtain ⟨e', he', hs⟩ := h e he
    rcases List.mem_append.1 he' with hl | hr
    · exact ⟨e', List.mem_append_left r hl, hs⟩
    · rcases List.mem_cons.1 hr with rfl | hr
      · exact absurd ⟨e, he, hs⟩ hn
      · exact ⟨e', List.mem_append_right l hr, hs⟩
  have := length_le_of_keys hd rest
  simp only [List.length_append, List.length_cons] at this hl
  omega

/-- Every key of either mapping stands in the other. -/
def SameKeys (as bs : Entries τ) : Prop :=
  (∀ e ∈ as, ∃ e' ∈ bs, sameKey e.1 e'.1 = true) ∧ ∀ e' ∈ bs, ∃ e ∈ as, sameKey e.1 e'.1 = true

/-- **The check by number and inclusion is equality of sets of keys.** -/
theorem sameKeySet_iff {as bs : Entries τ} (ha : DistinctKeys as) (hb : DistinctKeys bs) :
    sameKeySet as bs = true ↔ SameKeys as bs := by
  have included : as.all (fun e => hasKey e.1 bs) = true ↔
      ∀ e ∈ as, ∃ e' ∈ bs, sameKey e.1 e'.1 = true := by
    simp only [List.all_eq_true, hasKey_iff]
    constructor
    · intro h e he
      obtain ⟨e', he', hs⟩ := h e he
      exact ⟨e', he', sameKey_symm hs⟩
    · intro h e he
      obtain ⟨e', he', hs⟩ := h e he
      exact ⟨e', he', sameKey_symm hs⟩
  rw [sameKeySet, Bool.and_eq_true, beq_iff_eq, included]
  constructor
  · rintro ⟨hl, h⟩
    exact ⟨h, keys_covered ha h (Nat.le_of_eq hl.symm)⟩
  · rintro ⟨h, h'⟩
    refine ⟨Nat.le_antisymm (length_le_of_keys ha h) (length_le_of_keys hb ?_), h⟩
    intro e' he'
    obtain ⟨e, he, hs⟩ := h' e' he'
    exact ⟨e, he, sameKey_symm hs⟩

/-- With equal sets of keys, every key of the first mapping is found in the second. -/
theorem exists_lookup_of_sameKeySet {as bs : Entries τ} (h : sameKeySet as bs = true) {k v : Value τ}
    (hm : (k, v) ∈ as) : ∃ w, lookup k bs = some w := by
  rw [sameKeySet, Bool.and_eq_true, List.all_eq_true] at h
  have found : hasKey k bs = true := h.2 _ hm
  rw [← lookup_isSome] at found
  exact Option.isSome_iff_exists.1 found

end Assay.Value
