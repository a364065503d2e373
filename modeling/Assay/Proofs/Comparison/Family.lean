import Assay.Comparison.Mode
import Assay.Proofs.Comparison.Deep

/-!
# Families of deeply equal values

Deeply equal values are of one family at every position, so no boolean stands against a number there.
Keys are held against each other by sameness alone, which knows no families: a boolean is the same key
as the number 1 or 0.

* `deepEqual_of_meets` — deep equality holds at every position of deeply equal values;
* `KeyFamilies` — how the families of two keys that are the same can stand, and `keyFamilies_of_sameKey`
  — there is no other way;
* `compare_deep_families` — what deep comparison says of families, at values and at keys.
-/

namespace Assay.Value

/-! ### Positions of deeply equal values -/

theorem deepEqual_of_below {a b x y : Value} {s : Step} (h : deepEqual a b = .ok true)
    (hs : Below a b s x y) : deepEqual x y = .ok true := by
  cases hs with
  | key ha hb hv hw =>
    rw [deepEqual_of_entries ha hb, ite_ok_iff, deepEntries_iff] at h
    obtain ⟨w, hw', he⟩ := h.2 _ x hv
    cases hw.symm.trans hw'
    exact he
  | item ha hb hx hy =>
    rw [deepEqual_of_items ha hb, ite_ok_iff, deepAll_iff] at h
    exact h.2 _ x y hx hy

/-- Deeply equal values are so wherever the steps lead. -/
theorem deepEqual_of_meets {a b x y : Value} {p : List Step} (h : deepEqual a b = .ok true)
    (m : Meets a b p x y) : deepEqual x y = .ok true := by
  induction m with
  | here => exact h
  | step hs _ ih => exact ih (deepEqual_of_below h hs)

/-! ### Families of keys -/

/-- How the families of two keys that are the same can stand. -/
inductive KeyFamilies (k l : Value) : Prop
  | same (h : k.family = l.family) : KeyFamilies k l
  /-- A boolean and a number that is 1 or 0. -/
  | truth {b : Bool} (hk : k = .bool b) (hl : l.family = "number")
      (h : l.numericKey? = some (.whole (if b then 1 else 0))) : KeyFamilies k l
  /-- A number that is 1 or 0 and a boolean. -/
  | number {b : Bool} (hk : k.family = "number") (hl : l = .bool b)
      (h : k.numericKey? = some (.whole (if b then 1 else 0))) : KeyFamilies k l
  /-- A scalar of a numeric library has the family of its class. -/
  | wrapped (h : (∃ e i, k = .scalar e i) ∨ ∃ e i, l = .scalar e i) : KeyFamilies k l
  /-- An object and what it is like, by its own equality and hash: both are in one class of keys. -/
  | object (h : (∃ o, k = .foreign o) ∨ ∃ o, l = .foreign o) (like : k.keyClass? = l.keyClass?) :
      KeyFamilies k l

/-- The family of the keys of a class, booleans and objects apart. -/
def KeyClass.family : KeyClass → String
  | .number _ => "number"
  | .text _ => "string"
  | .null => "null"
  | .absent => "_Missing"
  | .bytes _ => "bytes"
  | .date _ => "date"
  | .moment _ _ => "datetime"
  | .object _ => "object"

/-- A key that is neither wrapped nor an object is a boolean or of the family of its class. -/
theorem family_of_keyClass {v : Value} {c : KeyClass} (h : keyClass? v = some c)
    (hs : ∀ e i, v ≠ .scalar e i) (ho : ∀ o, v ≠ .foreign o) :
    v.family = c.family ∨ ∃ b, v = .bool b ∧ c = .number (.whole (if b then 1 else 0)) := by
  cases v with
  | bool b => exact Or.inr ⟨b, rfl, (Option.some.inj h).symm⟩
  | scalar e i => exact absurd rfl (hs e i)
  | foreign o => exact absurd rfl (ho o)
  | _ => cases h <;> exact Or.inl rfl

/-- **Keys that are the same are of one family, or one is a boolean and the other a number, wrapped
scalars and objects apart.** -/
theorem keyFamilies_of_sameKey {k l : Value} (h : sameKey k l = true) : KeyFamilies k l := by
  by_cases tuple : ∃ xs, k = .tuple xs
  · obtain ⟨xs, rfl⟩ := tuple
    obtain ⟨ys, rfl, -⟩ := sameKey_tuple_left h
    exact .same rfl
  by_cases wrapped : (∃ e i, k = .scalar e i) ∨ ∃ e i, l = .scalar e i
  · exact .wrapped wrapped
  rw [sameKey_of_not_tuple fun xs hk => tuple ⟨xs, hk⟩, sameLeaf_iff] at h
  by_cases object : (∃ o, k = .foreign o) ∨ ∃ o, l = .foreign o
  · exact .object object h.1
  have hks (e : Element) (i : Item) (hk : k = .scalar e i) := wrapped (Or.inl ⟨e, i, hk⟩)
  have hls (e : Element) (i : Item) (hl : l = .scalar e i) := wrapped (Or.inr ⟨e, i, hl⟩)
  have hko (o : Foreign) (hk : k = .foreign o) := object (Or.inl ⟨o, hk⟩)
  have hlo (o : Foreign) (hl : l = .foreign o) := object (Or.inr ⟨o, hl⟩)
  -- Both keys have one class, which gives the family.
  obtain ⟨c, hk⟩ := Option.isSome_iff_exists.1 h.2
  have hl : keyClass? l = some c := h.1.symm.trans hk
  rcases family_of_keyClass hk hks hko with hkf | ⟨b, hkb, rfl⟩
  · rcases family_of_keyClass hl hls hlo with hlf | ⟨b, hlb, rfl⟩
    · exact .same (hkf.trans hlf.symm)
    · exact .number hkf hlb (numericKey?_eq_some_iff.2 hk)
  · rcases family_of_keyClass hl hls hlo with hlf | ⟨b', rfl, -⟩
    · exact .truth hkb hlf (numericKey?_eq_some_iff.2 hl)
    · exact .same (by rw [hkb]; rfl)

/-! ### Deep comparison -/

/-- What deep comparison says of the families of two values and of their keys. -/
structure FamiliesAt (x y : Value) : Prop where
  family : x.family = y.family
  /-- Mappings have as many keys, and each key of the first is one of the second. -/
  keys : ∀ as bs, x.entries? = some as → y.entries? = some bs →
    as.length = bs.length ∧ ∀ e ∈ as, ∃ e' ∈ bs, sameKey e.1 e'.1 = true
  keyFamilies : ∀ as bs, x.entries? = some as → y.entries? = some bs →
    ∀ e ∈ as, ∀ e' ∈ bs, sameKey e.1 e'.1 = true → KeyFamilies e.1 e'.1

theorem familiesAt_of_deepEqual {x y : Value} (h : deepEqual x y = .ok true) : FamiliesAt x y where
  family := family_eq_of_deepEqual h
  keys as bs hx hy := by
    rw [deepEqual_of_entries hx hy, ite_ok_iff, sameKeySet, Bool.and_eq_true, beq_iff_eq,
      List.all_eq_true] at h
    refine ⟨h.1.1, fun e he => ?_⟩
    obtain ⟨e', he', hs⟩ := hasKey_iff.1 (h.1.2 e he)
    exact ⟨e', he', sameKey_symm hs⟩
  keyFamilies _ _ _ _ _ _ _ _ := keyFamilies_of_sameKey

/-- A mapping from a boolean is deeply equal to that from its number. -/
theorem deepEqual_bool_int (frozen : Bool) (b : Bool) {v : Value} (hv : deepEqual v v = .ok true) :
    deepEqual (.map frozen [(.bool b, v)]) (.map frozen [(.int (if b then 1 else 0), v)]) = .ok true := by
  have key : sameKey (.int (if b then 1 else 0) : Value) (.bool b) = true := sameKey_symm (sameKey_bool_int b)
  rw [deepEqual_of_entries rfl rfl, ite_ok_iff, deepEntries_iff]
  refine ⟨by simp [sameKeySet, hasKey, key], fun k w hw => ?_⟩
  cases List.mem_singleton.1 hw
  exact ⟨v, by rw [lookup, if_pos key], hv⟩

/-- **Deep comparison keeps families apart at all values, and at all keys but booleans and the numbers 1
and 0, which it always takes for each other, wrapped scalars, and objects that are like other keys.** -/
theorem compare_deep_families (t : Option Tolerance) :
    (∀ a b, compare (.str "deep") t a b = .ok true → ∀ p x y, Meets a b p x y → FamiliesAt x y) ∧
      ∀ frozen b v, compare (.str "deep") t v v = .ok true →
        compare (.str "deep") t (.map frozen [(.bool b, v)])
          (.map frozen [(.int (if b then 1 else 0), v)]) = .ok true := by
  constructor
  · intro a b h p x y m
    exact familiesAt_of_deepEqual (deepEqual_of_meets h m)
  · intro frozen b v hv
    exact deepEqual_bool_int frozen b hv

/-- A boolean as key, taken for a number. -/
theorem compare_deep_truth_key :
    compare (.str "deep") none (.dict [(.bool true, .int 1)]) (.dict [(.int 1, .int 1)]) = .ok true ∧
      family (.bool true : Value) ≠ family (.int 1 : Value) := by
  exact ⟨by rfl, by decide⟩

end Assay.Value
