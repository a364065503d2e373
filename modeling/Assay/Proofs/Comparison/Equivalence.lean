import Assay.Proofs.Comparison.Deep
import Mathlib.Data.List.Forall2
import Mathlib.Logic.Relation

/-!
# Deep equality is an equivalence

On data, that is on scalars other than not-a-number and what sequences and mappings make of them, deep
equality always answers, and the answer is that of an equivalence.  It does not depend on the order of
entries or on the kinds of sequences and mappings, and values that are deeply equal stand for each other
wherever they occur.

* `IsData` — the values in question;
* `EqualAt` — what deep equality asks of data at one position, and `deepEqual_step_data` — one step;
* `deepEqual_refl`, `deepEqual_symm`, `deepEqual_trans` — the three laws;
* `Changes` — one value somewhere inside is changed, and `deepEqual_of_changes` — a change that deep
  equality does not see in the place where it happens is not seen from outside;
* `deepEqual_laws` — all of this together.
-/

namespace Assay

theorem Double.ofInt_ne_nan (i : Int) (mark : Nat) : ofInt i ≠ .nan mark := by
  unfold ofInt ofUnits
  split <;> nofun

namespace Value

/-! ### Data -/

/-- A scalar that equals itself. -/
inductive IsScalar : Value → Prop
  | null : IsScalar .null
  | bool (b : Bool) : IsScalar (.bool b)
  | int (i : Int) : IsScalar (.int i)
  | float {x : Double} (h : ∀ mark, x ≠ .nan mark) : IsScalar (.float x)
  | str (s : String) : IsScalar (.str s)
  | bytes (bs : List UInt8) : IsScalar (.bytes bs)
  | date (d : Date) : IsScalar (.date d)
  | moment (m : Moment) : IsScalar (.moment m)

/-- A value built from scalars by sequences and by mappings with scalars as keys. -/
inductive IsData : Value → Prop
  | scalar {v : Value} (h : IsScalar v) : IsData v
  | list {xs : List Value} (h : ∀ x ∈ xs, IsData x) : IsData (.list xs)
  | tuple {xs : List Value} (h : ∀ x ∈ xs, IsData x) : IsData (.tuple xs)
  | map {frozen : Bool} {es : Entries} (hk : ∀ e ∈ es, IsScalar e.1) (hd : DistinctKeys es)
      (h : ∀ e ∈ es, IsData e.2) : IsData (.map frozen es)

namespace IsScalar

variable {v : Value}

theorem items?_eq_none (h : IsScalar v) : v.items? = none := by cases h <;> rfl

theorem entries?_eq_none (h : IsScalar v) : v.entries? = none := by cases h <;> rfl

theorem isNan_eq_false (h : IsScalar v) : v.isNan = false := by
  cases h with
  | @float x hx =>
    cases x with
    | nan mark => exact absurd rfl (hx mark)
    | _ => rfl
  | _ => rfl

theorem ne_foreign (h : IsScalar v) (o : Foreign) : v ≠ .foreign o := by
  rintro rfl
  cases h

/-- A scalar is the same key as itself. -/
theorem sameKey_self (h : IsScalar v) : sameKey v v = true := by
  have hv : ∀ xs, v ≠ .tuple xs := by
    rintro xs rfl
    cases h
  rw [sameKey_of_not_tuple hv, sameLeaf_iff]
  refine ⟨rfl, ?_⟩
  cases h <;> rfl

end IsScalar

namespace IsData

variable {v : Value}

theorem wellKeyed (h : IsData v) : WellKeyed v := by
  induction h with
  | scalar h => cases h <;> exact wellKeyed_leaf (by simp) (by simp) (by simp)
  | list _ ih => exact wellKeyed_list.2 ih
  | tuple _ ih => exact wellKeyed_tuple.2 ih
  | map _ hd _ ih => exact wellKeyed_map.2 ⟨hd, ih⟩

/-- The items of data are data. -/
theorem items (h : IsData v) {xs : List Value} (hx : v.items? = some xs) : ∀ x ∈ xs, IsData x := by
  cases h with
  | scalar h => rw [h.items?_eq_none] at hx; cases hx
  | list h => cases hx; exact h
  | tuple h => cases hx; exact h
  | map => cases hx

/-- The entries of data have different scalars as keys and data as values. -/
theorem entries (h : IsData v) {es : Entries} (he : v.entries? = some es) :
    (∀ e ∈ es, IsScalar e.1) ∧ DistinctKeys es ∧ ∀ e ∈ es, IsData e.2 := by
  cases h with
  | scalar h => rw [h.entries?_eq_none] at he; cases he
  | list => cases he
  | tuple => cases he
  | map hk hd h => cases he; exact ⟨hk, hd, h⟩

theorem ne_foreign (h : IsData v) (o : Foreign) : v ≠ .foreign o := by
  rintro rfl
  cases h with
  | scalar h => exact h.ne_foreign o rfl

/-- Data in neither family of collections is a scalar. -/
theorem isScalar (h : IsData v) (ha : v.family ≠ "array") (ho : v.family ≠ "object") : IsScalar v := by
  cases h with
  | scalar h => exact h
  | list => exact absurd rfl ha
  | tuple => exact absurd rfl ha
  | map => exact absurd rfl ho

/-- Data in the family of sequences is a sequence. -/
theorem exists_items (h : IsData v) (hf : v.family = "array") : ∃ xs, v.items? = some xs := by
  cases h with
  | scalar h => cases h <;> simp [family, unwrapped, className] at hf
  | list => exact ⟨_, rfl⟩
  | tuple => exact ⟨_, rfl⟩
  | map => simp at hf

/-- Data in the family of mappings is a mapping. -/
theorem exists_entries (h : IsData v) (hf : v.family = "object") : ∃ es, v.entries? = some es := by
  cases h with
  | scalar h => cases h <;> simp [family, unwrapped, className] at hf
  | list => simp at hf
  | tuple => simp at hf
  | map => exact ⟨_, rfl⟩

end IsData

theorem family_of_items {v : Value} {xs : List Value} (h : v.items? = some xs) : v.family = "array" := by
  rcases items?_eq_some h with rfl | rfl <;> rfl

theorem family_of_entries {v : Value} {es : Entries} (h : v.entries? = some es) :
    v.family = "object" := by
  obtain ⟨frozen, rfl⟩ := entries?_eq_some h
  rfl

theorem Below.isData {a b x y : Value} {s : Step} (h : Below a b s x y) (ha : IsData a)
    (hb : IsData b) : IsData x ∧ IsData y := by
  cases h with
  | key hea heb hv hw =>
    obtain ⟨k, hm, -⟩ := mem_of_lookup hw
    exact ⟨(ha.entries hea).2.2 _ hv, (hb.entries heb).2.2 _ hm⟩
  | item hia hib hv hw =>
    exact ⟨ha.items hia _ (List.mem_of_getElem? hv), hb.items hib _ (List.mem_of_getElem? hw)⟩

/-! ### One step on data -/

/-- On leaves deep equality asks for one family and one key. -/
theorem deepEqual_of_leaves {a b : Value} (ha : IsData a) (hb : IsData b) (h : IsLeafPair a b) :
    deepEqual a b = .ok (a.family == b.family && sameKey a b) := by
  cases ha with
  | scalar ha =>
    have equal : leafEquals a b = .ok (sameKey a b) := by
      rw [leafEquals_of_not_foreign ha.ne_foreign hb.ne_foreign, ha.isNan_eq_false]
      exact congrArg _ (Bool.and_true _)
    have sides : deepEqual a b = if a.family = b.family then leafEquals a b else .ok false := by
      cases ha <;> rfl
    rw [sides, equal]
    split <;> simp_all
  | list =>
    cases hb with
    | scalar hb => cases hb <;> simp [deepEqual, outsideEquals, family, unwrapped, className]
    | map => simp [deepEqual, outsideEquals]
    | _ => exact absurd h (not_isLeafPair_of_items rfl rfl)
  | tuple =>
    cases hb with
    | scalar hb => cases hb <;> simp [deepEqual, outsideEquals, family, unwrapped, className]
    | map => simp [deepEqual, outsideEquals]
    | _ => exact absurd h (not_isLeafPair_of_items rfl rfl)
  | map =>
    cases hb with
    | scalar hb => cases hb <;> simp [deepEqual, outsideEquals, family, unwrapped, className]
    | map => exact absurd h (not_isLeafPair_of_entries rfl rfl)
    | _ => simp [deepEqual, outsideEquals]

/-- What deep equality asks of data at one position. -/
structure EqualAt (x y : Value) : Prop extends ShapeAt x y where
  family : x.family = y.family
  key : x.family ≠ "array" → x.family ≠ "object" → sameKey x y = true

theorem deepAt_iff_equalAt {a b : Value} (ha : IsData a) (hb : IsData b) : DeepAt a b ↔ EqualAt a b := by
  rcases pair_cases a b with ⟨xs, ys, hx, hy⟩ | ⟨as, bs, hx, hy⟩ | h
  · rw [deepAt_of_items hx hy, ← shapeAt_of_items hx hy]
    have family := family_of_items hx
    exact ⟨fun h => ⟨h, family.trans (family_of_items hy).symm, fun no _ => absurd family no⟩,
      EqualAt.toShapeAt⟩
  · rw [deepAt_of_entries hx hy, ← shapeAt_of_entries hx hy]
    have family := family_of_entries hx
    exact ⟨fun h => ⟨h, family.trans (family_of_entries hy).symm, fun _ no => absurd family no⟩,
      EqualAt.toShapeAt⟩
  · rw [deepAt_of_isLeafPair h, deepEqual_of_leaves ha hb h, Except.ok.injEq, Bool.and_eq_true, beq_iff_eq]
    constructor
    · rintro ⟨hf, hk⟩
      exact ⟨shapeAt_of_isLeafPair h, hf, fun _ _ => hk⟩
    · intro g
      -- A collection would have one of its family on the other side, and the pair would be none of leaves.
      refine ⟨g.family, g.key ?_ ?_⟩
      · intro array
        obtain ⟨xs, hx⟩ := ha.exists_items array
        obtain ⟨ys, hy⟩ := hb.exists_items (g.family.symm.trans array)
        exact not_isLeafPair_of_items hx hy h
      · intro object
        obtain ⟨as, hx⟩ := ha.exists_entries object
        obtain ⟨bs, hy⟩ := hb.exists_entries (g.family.symm.trans object)
        exact not_isLeafPair_of_entries hx hy h

/-- One step of deep equality on data. -/
theorem deepEqual_step_data {a b : Value} (ha : IsData a) (hb : IsData b) :
    deepEqual a b = .ok true ↔ EqualAt a b ∧ ∀ s x y, Below a b s x y → deepEqual x y = .ok true := by
  rw [deepEqual_step ⟨ha.wellKeyed, hb.wellKeyed⟩, deepAt_iff_equalAt ha hb]

/-! ### Two and three values at once -/

theorem lookup_of_sameKey {es : Entries} (hd : DistinctKeys es) {k l v : Value}
    (h : lookup k es = some v) (hkl : sameKey k l = true) : lookup l es = some v := by
  obtain ⟨k', hm, hk⟩ := mem_of_lookup h
  exact lookup_eq_some_of_mem hd hm (sameKey_trans hk hkl)

/-- A step from a value and itself leads to a value and itself. -/
theorem Below.eq {a x y : Value} {s : Step} (h : Below a a s x y) (ha : IsData a) : x = y := by
  cases h with
  | key hea heb hv hw =>
    cases hea.symm.trans heb
    obtain ⟨hk, hd, -⟩ := ha.entries hea
    have found := lookup_eq_some_of_mem hd hv (hk _ hv).sameKey_self
    exact Option.some.inj (found.symm.trans hw)
  | item hia hib hv hw =>
    cases hia.symm.trans hib
    exact Option.some.inj (hv.symm.trans hw)

/-- A step from two values can be made from them the other way round. -/
theorem Below.swap {a b x y : Value} {s : Step} (h : Below a b s x y) (ha : IsData a) :
    ∃ s', Below b a s' y x := by
  cases h with
  | key hea heb hv hw =>
    obtain ⟨l, hm, hl⟩ := mem_of_lookup hw
    exact ⟨.key l, .key heb hea hm (lookup_eq_some_of_mem (ha.entries hea).2.1 hv (sameKey_symm hl))⟩
  | item hia hib hv hw => exact ⟨_, .item hib hia hw hv⟩

/-- A step from the outer two of three values passes a value below the middle one. -/
theorem Below.between {a b c x z : Value} {s : Step} (h : Below a c s x z) (hab : EqualAt a b)
    (hb : IsData b) (hc : IsData c) : ∃ y s', Below a b s x y ∧ Below b c s' y z := by
  cases h with
  | key hea hec hv hw =>
    obtain ⟨bs, heb⟩ := hb.exists_entries (hab.family.symm.trans (family_of_entries hea))
    obtain ⟨⟨l, y⟩, hm, hl⟩ := (hab.keys _ _ hea heb).1 _ hv
    exact ⟨y, .key l, .key hea heb hv (lookup_eq_some_of_mem (hb.entries heb).2.1 hm (sameKey_symm hl)),
      .key heb hec hm (lookup_of_sameKey (hc.entries hec).2.1 hw hl)⟩
  | @item _ _ _ _ i hia hic hv hw =>
    obtain ⟨ys, hib⟩ := hb.exists_items (hab.family.symm.trans (family_of_items hia))
    have hi : i < ys.length := by
      rw [← hab.lengths _ _ hia hib]
      exact (List.getElem?_eq_some_iff.1 hv).1
    have hy : ys[i]? = some ys[i] := List.getElem?_eq_getElem hi
    exact ⟨ys[i], .item i, .item hia hib hv hy, .item hib hic hy hw⟩

namespace SameKeys

variable {as bs cs : Entries}

theorem refl (h : ∀ e ∈ as, IsScalar e.1) : SameKeys as as :=
  ⟨fun e he => ⟨e, he, (h e he).sameKey_self⟩, fun e he => ⟨e, he, (h e he).sameKey_self⟩⟩

theorem symm (h : SameKeys as bs) : SameKeys bs as := by
  constructor
  · intro e he
    obtain ⟨e', he', hs⟩ := h.2 e he
    exact ⟨e', he', sameKey_symm hs⟩
  · intro e he
    obtain ⟨e', he', hs⟩ := h.1 e he
    exact ⟨e', he', sameKey_symm hs⟩

theorem trans (hab : SameKeys as bs) (hbc : SameKeys bs cs) : SameKeys as cs := by
  constructor
  · intro e he
    obtain ⟨e', he', hs⟩ := hab.1 e he
    obtain ⟨e'', he'', hs'⟩ := hbc.1 e' he'
    exact ⟨e'', he'', sameKey_trans hs hs'⟩
  · intro e he
    obtain ⟨e', he', hs⟩ := hbc.2 e he
    obtain ⟨e'', he'', hs'⟩ := hab.2 e' he'
    exact ⟨e'', he'', sameKey_trans hs' hs⟩

end SameKeys

namespace EqualAt

variable {a b c : Value}

theorem refl (ha : IsData a) : EqualAt a a where
  lengths _ _ hx hy := congrArg List.length (Option.some.inj (hx.symm.trans hy))
  keys as bs hx hy := by
    cases hx.symm.trans hy
    exact .refl (ha.entries hx).1
  family := rfl
  key no no' := (ha.isScalar no no').sameKey_self

theorem symm (h : EqualAt a b) : EqualAt b a where
  lengths xs ys hx hy := (h.lengths ys xs hy hx).symm
  keys as bs hx hy := (h.keys bs as hy hx).symm
  family := h.family.symm
  key no no' := by
    rw [← h.family] at no no'
    exact sameKey_symm (h.key no no')

theorem trans (hab : EqualAt a b) (hbc : EqualAt b c) (hb : IsData b) : EqualAt a c where
  lengths xs zs hx hz := by
    obtain ⟨ys, hy⟩ := hb.exists_items (hab.family.symm.trans (family_of_items hx))
    exact (hab.lengths xs ys hx hy).trans (hbc.lengths ys zs hy hz)
  keys as cs hx hz := by
    obtain ⟨bs, hy⟩ := hb.exists_entries (hab.family.symm.trans (family_of_entries hx))
    exact (hab.keys as bs hx hy).trans (hbc.keys bs cs hy hz)
  family := hab.family.trans hbc.family
  key no no' := by
    have key := hab.key no no'
    rw [hab.family] at no no'
    exact sameKey_trans key (hbc.key no no')

end EqualAt

/-! ### The three laws -/

/-- Data is deeply equal to itself. -/
theorem deepEqual_refl {a : Value} (ha : IsData a) : deepEqual a a = .ok true := by
  rw [deepEqual_step_data ha ha]
  refine ⟨.refl ha, fun s x y h => ?_⟩
  obtain rfl := h.eq ha
  have := h.sizeOf_lt
  exact deepEqual_refl (h.isData ha ha).1
termination_by sizeOf a

theorem deepEqual_symm {a b : Value} (ha : IsData a) (hb : IsData b) (h : deepEqual a b = .ok true) :
    deepEqual b a = .ok true := by
  rw [deepEqual_step_data hb ha]
  obtain ⟨here, below⟩ := (deepEqual_step_data ha hb).1 h
  refine ⟨here.symm, fun s y x hs => ?_⟩
  obtain ⟨s', hs'⟩ := hs.swap hb
  have := hs'.sizeOf_lt
  obtain ⟨hx, hy⟩ := hs'.isData ha hb
  exact deepEqual_symm hx hy (below s' x y hs')
termination_by sizeOf a

theorem deepEqual_trans {a b c : Value} (ha : IsData a) (hb : IsData b) (hc : IsData c)
    (hab : deepEqual a b = .ok true) (hbc : deepEqual b c = .ok true) : deepEqual a c = .ok true := by
  rw [deepEqual_step_data ha hc]
  obtain ⟨here, below⟩ := (deepEqual_step_data ha hb).1 hab
  obtain ⟨here', below'⟩ := (deepEqual_step_data hb hc).1 hbc
  refine ⟨here.trans here' hb, fun s x z hs => ?_⟩
  obtain ⟨y, s', hxy, hyz⟩ := hs.between here hb hc
  have := hs.sizeOf_lt
  obtain ⟨hx, hy⟩ := hxy.isData ha hb
  exact deepEqual_trans hx hy (hyz.isData hb hc).2 (below s x y hxy) (below' s' y z hyz)
termination_by sizeOf a

/-! ### Deep equality always answers -/

theorem exists_deepAll {xs ys : List Value}
    (h : ∀ x ∈ xs, ∀ y ∈ ys, ∃ r, deepEqual x y = .ok r) : ∃ r, deepAll xs ys = .ok r := by
  induction xs generalizing ys with
  | nil => exact ⟨true, deepAll_nil ys⟩
  | cons x xs ih =>
    cases ys with
    | nil => exact ⟨true, rfl⟩
    | cons y ys =>
      obtain ⟨r, hr⟩ := h x List.mem_cons_self y List.mem_cons_self
      rw [deepAll, hr]
      cases r with
      | false => exact ⟨false, rfl⟩
      | true => exact ih fun x hx y hy => h x (List.mem_cons_of_mem _ hx) y (List.mem_cons_of_mem _ hy)

theorem exists_deepEntries {as bs : Entries}
    (h : ∀ k v w, (k, v) ∈ as → lookup k bs = some w → ∃ r, deepEqual v w = .ok r) :
    ∃ r, deepEntries bs as = .ok r := by
  induction as with
  | nil => exact ⟨true, rfl⟩
  | cons e as ih =>
    obtain ⟨k, v⟩ := e
    rw [deepEntries]
    cases hw : lookup k bs with
    | none => exact ⟨false, rfl⟩
    | some w =>
      obtain ⟨r, hr⟩ := h k v w List.mem_cons_self hw
      dsimp only
      rw [hr]
      cases r with
      | false => exact ⟨false, rfl⟩
      | true => exact ih fun k v w hv => h k v w (List.mem_cons_of_mem _ hv)

/-- On data deep equality answers. -/
theorem exists_deepEqual {a b : Value} (ha : IsData a) (hb : IsData b) : ∃ r, deepEqual a b = .ok r := by
  rcases pair_cases a b with ⟨xs, ys, hx, hy⟩ | ⟨as, bs, hx, hy⟩ | h
  · rw [deepEqual_of_items hx hy]
    split
    · refine exists_deepAll fun x hm y hm' => ?_
      obtain ⟨i, hi⟩ := List.getElem?_of_mem hm
      have := (Below.item hx hx hi hi).sizeOf_lt
      exact exists_deepEqual (ha.items hx x hm) (hb.items hy y hm')
    · exact ⟨false, rfl⟩
  · rw [deepEqual_of_entries hx hy]
    split
    · refine exists_deepEntries fun k v w hv hw => ?_
      have below := Below.key hx hy hv hw
      have := below.sizeOf_lt
      obtain ⟨hv, hw⟩ := below.isData ha hb
      exact exists_deepEqual hv hw
    · exact ⟨false, rfl⟩
  · exact ⟨_, deepEqual_of_leaves ha hb h⟩
termination_by sizeOf a

/-- On data the answer is decided by when it is true. -/
theorem deepEqual_congr {a b a' b' : Value} (ha : IsData a) (hb : IsData b) (ha' : IsData a')
    (hb' : IsData b') (haa : deepEqual a a' = .ok true) (hbb : deepEqual b b' = .ok true) :
    deepEqual a' b' = deepEqual a b := by
  obtain ⟨r, hr⟩ := exists_deepEqual ha hb
  obtain ⟨r', hr'⟩ := exists_deepEqual ha' hb'
  have same : deepEqual a' b' = .ok true ↔ deepEqual a b = .ok true := by
    constructor
    · intro h
      exact deepEqual_trans ha ha' hb haa (deepEqual_trans ha' hb' hb h (deepEqual_symm hb hb' hbb))
    · intro h
      exact deepEqual_trans ha' ha hb' (deepEqual_symm ha ha' haa) (deepEqual_trans ha hb hb' h hbb)
  rw [hr, hr', Except.ok.injEq, Except.ok.injEq] at same
  rw [hr, hr', Bool.eq_iff_iff.2 same]

/-! ### Changes inside a value -/

/-- One value somewhere in a value is changed: the value itself, an item of a sequence, or a value of a
mapping, at any depth. -/
inductive Changes (R : Value → Value → Prop) : Value → Value → Prop
  | here {a b : Value} (h : R a b) : Changes R a b
  | list {x y : Value} {l r : List Value} (h : Changes R x y) :
      Changes R (.list (l ++ x :: r)) (.list (l ++ y :: r))
  | tuple {x y : Value} {l r : List Value} (h : Changes R x y) :
      Changes R (.tuple (l ++ x :: r)) (.tuple (l ++ y :: r))
  | map {frozen : Bool} {k x y : Value} {l r : Entries} (h : Changes R x y) :
      Changes R (.map frozen (l ++ (k, x) :: r)) (.map frozen (l ++ (k, y) :: r))

/-- The same items in the other kind of sequence, or the same entries in any order in either kind of
mapping. -/
inductive Rearranges : Value → Value → Prop
  | toTuple (xs : List Value) : Rearranges (.list xs) (.tuple xs)
  | toList (xs : List Value) : Rearranges (.tuple xs) (.list xs)
  | entries {frozen frozen' : Bool} {as bs : Entries} (h : as.Perm bs) :
      Rearranges (.map frozen as) (.map frozen' bs)

/-- Data that is deeply equal, for one that is replaced by the other. -/
def Replaces (v w : Value) : Prop := IsData w ∧ deepEqual v w = .ok true

theorem deepEqual_of_forall₂ {a b : Value} {xs ys : List Value} (ha : a.items? = some xs)
    (hb : b.items? = some ys) (h : List.Forall₂ (fun x y => deepEqual x y = .ok true) xs ys) :
    deepEqual a b = .ok true := by
  rw [deepEqual_of_items ha hb, if_pos h.length_eq, deepAll_iff]
  intro i x y hx hy
  obtain ⟨hi, rfl⟩ := List.getElem?_eq_some_iff.1 hx
  obtain ⟨hj, rfl⟩ := List.getElem?_eq_some_iff.1 hy
  exact List.Forall₂.get h hi hj

/-- Mappings of one size are deeply equal if each entry of the one has a deeply equal entry under the
same key in the other. -/
theorem deepEqual_of_forall_mem {frozen frozen' : Bool} {as bs : Entries} (hk : ∀ e ∈ as, IsScalar e.1)
    (hd : DistinctKeys bs) (hl : as.length = bs.length)
    (h : ∀ k v, (k, v) ∈ as → ∃ w, (k, w) ∈ bs ∧ deepEqual v w = .ok true) :
    deepEqual (.map frozen as) (.map frozen' bs) = .ok true := by
  have keys : sameKeySet as bs = true := by
    rw [sameKeySet, Bool.and_eq_true, beq_iff_eq, List.all_eq_true]
    refine ⟨hl, fun e he => hasKey_iff.2 ?_⟩
    obtain ⟨w, hw, -⟩ := h e.1 e.2 he
    exact ⟨_, hw, (hk e he).sameKey_self⟩
  rw [deepEqual_of_entries rfl rfl, if_pos keys, deepEntries_iff]
  intro k v hv
  obtain ⟨w, hw, he⟩ := h k v hv
  exact ⟨w, lookup_eq_some_of_mem hd hw (hk _ hv).sameKey_self, he⟩

theorem distinctKeys_of_map_fst {as bs : Entries} (h : as.map Prod.fst = bs.map Prod.fst)
    (hd : DistinctKeys as) : DistinctKeys bs := by
  have pairs (es : Entries) :
      DistinctKeys es ↔ (es.map Prod.fst).Pairwise fun k l => sameKey k l = false := by
    rw [List.pairwise_map]
    rfl
  rw [pairs] at hd ⊢
  rwa [← h]

/-- A rearranged value is deeply equal data. -/
theorem Rearranges.replaces {a b : Value} (h : Rearranges a b) (ha : IsData a) : Replaces a b := by
  have same {xs : List Value} (hx : ∀ x ∈ xs, IsData x) :
      List.Forall₂ (fun x y => deepEqual x y = .ok true) xs xs :=
    List.forall₂_same.2 fun x hm => deepEqual_refl (hx x hm)
  cases h with
  | toTuple xs =>
    have items := ha.items rfl
    exact ⟨.tuple items, deepEqual_of_forall₂ rfl rfl (same items)⟩
  | toList xs =>
    have items := ha.items rfl
    exact ⟨.list items, deepEqual_of_forall₂ rfl rfl (same items)⟩
  | entries h =>
    obtain ⟨hk, hd, hv⟩ := ha.entries rfl
    have distinct := (h.pairwise_iff fun {e e'} hs => by
      rw [Bool.eq_false_iff] at hs ⊢
      exact fun hs' => hs (sameKey_symm hs')).1 hd
    refine ⟨.map (fun e he => hk e (h.mem_iff.2 he)) distinct fun e he => hv e (h.mem_iff.2 he), ?_⟩
    exact deepEqual_of_forall_mem hk distinct h.length_eq fun k v he =>
      ⟨v, h.mem_iff.1 he, deepEqual_refl (hv _ he)⟩

/-- What holds of the members of a list holds after one of them is exchanged for another that has it. -/
theorem forall_mem_exchange {α : Type} {P : α → Prop} {l r : List α} {x y : α}
    (h : ∀ z ∈ l ++ x :: r, P z) (hy : P y) : ∀ z ∈ l ++ y :: r, P z := by
  intro z hz
  rcases List.mem_append.1 hz with hl | hr
  · exact h z (List.mem_append_left _ hl)
  · rcases List.mem_cons.1 hr with rfl | hr
    · exact hy
    · exact h z (List.mem_append_right _ (List.mem_cons_of_mem _ hr))

theorem deepEqual_of_exchange {a b x y : Value} {l r : List Value} (hl : a.items? = some (l ++ x :: r))
    (hr : b.items? = some (l ++ y :: r)) (ha : ∀ z ∈ l ++ x :: r, IsData z)
    (h : deepEqual x y = .ok true) : deepEqual a b = .ok true := by
  have same {zs : List Value} (hz : ∀ z ∈ zs, IsData z) :
      List.Forall₂ (fun x y => deepEqual x y = .ok true) zs zs :=
    List.forall₂_same.2 fun z hm => deepEqual_refl (hz z hm)
  refine deepEqual_of_forall₂ hl hr (List.rel_append (same fun z hz => ?_) (.cons h (same fun z hz => ?_)))
  · exact ha z (List.mem_append_left _ hz)
  · exact ha z (List.mem_append_right _ (List.mem_cons_of_mem _ hz))

/-- **What is deeply equal in its place is deeply equal from outside.** -/
theorem replaces_of_changes {R : Value → Value → Prop} (hR : ∀ v w, IsData v → R v w → Replaces v w)
    {a b : Value} (h : Changes R a b) (ha : IsData a) : Replaces a b := by
  induction h with
  | here h => exact hR _ _ ha h
  | list _ ih =>
    have items := ha.items rfl
    obtain ⟨hy, he⟩ := ih (items _ (List.mem_append_right _ List.mem_cons_self))
    exact ⟨.list (forall_mem_exchange items hy), deepEqual_of_exchange rfl rfl items he⟩
  | tuple _ ih =>
    have items := ha.items rfl
    obtain ⟨hy, he⟩ := ih (items _ (List.mem_append_right _ List.mem_cons_self))
    exact ⟨.tuple (forall_mem_exchange items hy), deepEqual_of_exchange rfl rfl items he⟩
  | @map frozen k x y l r _ ih =>
    obtain ⟨hk, hd, hv⟩ := ha.entries rfl
    have here : (k, x) ∈ l ++ (k, x) :: r := List.mem_append_right _ List.mem_cons_self
    have scalar : IsScalar k := hk _ here
    obtain ⟨hy, he⟩ := ih (hv _ here)
    have distinct : DistinctKeys (l ++ (k, y) :: r) := distinctKeys_of_map_fst (by simp) hd
    refine ⟨.map (forall_mem_exchange hk scalar) distinct (forall_mem_exchange hv hy), ?_⟩
    refine deepEqual_of_forall_mem hk distinct (by simp) fun k' v hm => ?_
    rcases List.mem_append.1 hm with hl | hr
    · exact ⟨v, List.mem_append_left _ hl, deepEqual_refl (hv _ hm)⟩
    · rcases List.mem_cons.1 hr with same | hr
      · cases same
        exact ⟨y, List.mem_append_right _ List.mem_cons_self, he⟩
      · exact ⟨v, List.mem_append_right _ (List.mem_cons_of_mem _ hr), deepEqual_refl (hv _ hm)⟩

/-- The same of any number of changes, one after the other. -/
theorem replaces_of_reflTransGen {R : Value → Value → Prop}
    (hR : ∀ v w, IsData v → R v w → Replaces v w) {a b : Value}
    (h : Relation.ReflTransGen (Changes R) a b) (ha : IsData a) : Replaces a b := by
  induction h with
  | refl => exact ⟨ha, deepEqual_refl ha⟩
  | tail _ last ih =>
    obtain ⟨hb, hab⟩ := ih
    obtain ⟨hc, hbc⟩ := replaces_of_changes hR last hb
    exact ⟨hc, deepEqual_trans ha hb hc hab hbc⟩

/-! ### The laws together -/

/-- A value after rearrangements anywhere inside. -/
def Rearranged : Value → Value → Prop := Relation.ReflTransGen (Changes Rearranges)

/-- A value after items and values of mappings, anywhere inside, are replaced by deeply equal data. -/
def Replaced : Value → Value → Prop := Relation.ReflTransGen (Changes Replaces)

/-- **Deep equality of data is a decidable equivalence that rearrangements and replacements by equals do
not affect.** -/
theorem deepEqual_laws :
    (∀ a b, IsData a → IsData b → ∃ r, deepEqual a b = .ok r) ∧
      Equivalence (fun a b : { v : Value // IsData v } => deepEqual (a : Value) (b : Value) = .ok true) ∧
      (∀ a a' b b', IsData a → IsData b → Rearranged a a' → Rearranged b b' →
        deepEqual a' b' = deepEqual a b) ∧
      ∀ a a' b b', IsData a → IsData b → Replaced a a' → Replaced b b' →
        deepEqual a' b' = deepEqual a b := by
  have unaffected {R : Value → Value → Prop} (hR : ∀ v w, IsData v → R v w → Replaces v w)
      (a a' b b' : Value) (ha : IsData a) (hb : IsData b) (haa : Relation.ReflTransGen (Changes R) a a')
      (hbb : Relation.ReflTransGen (Changes R) b b') : deepEqual a' b' = deepEqual a b := by
    obtain ⟨ha', haa⟩ := replaces_of_reflTransGen hR haa ha
    obtain ⟨hb', hbb⟩ := replaces_of_reflTransGen hR hbb hb
    exact deepEqual_congr ha hb ha' hb' haa hbb
  refine ⟨fun a b ha hb => exists_deepEqual ha hb, ⟨?_, ?_, ?_⟩, ?_, ?_⟩
  · exact fun a => deepEqual_refl a.2
  · exact fun {a b} h => deepEqual_symm a.2 b.2 h
  · exact fun {a b c} hab hbc => deepEqual_trans a.2 b.2 c.2 hab hbc
  · exact unaffected fun v w hv h => h.replaces hv
  · exact unaffected fun v w _ h => h

/-- A mapping with a boolean key over a list, and a text key. -/
def mixed : Value :=
  .dict [(.bool true, .list [.float (.ofInt 5), .bytes [1]]), (.str "k", .date ⟨2024, 1, 2⟩)]

/-- The same with the entries the other way round, read-only, and with a tuple. -/
def shuffled : Value :=
  .map true [(.str "k", .date ⟨2024, 1, 2⟩), (.bool true, .tuple [.float (.ofInt 5), .bytes [1]])]

/-- The same with other numbers that are equal, one of them as key. -/
def renumbered : Value :=
  .dict [(.str "k", .date ⟨2024, 1, 2⟩), (.float (.ofInt 1), .list [.int 5, .bytes [1]])]

theorem isData_mixed : IsData mixed := by
  refine .map ?_ (by simp [DistinctKeys, sameKey, sameLeaf, keyClass?]) ?_
  · simp only [List.forall_mem_cons]
    exact ⟨.bool true, .str "k", by simp⟩
  · simp only [List.forall_mem_cons]
    refine ⟨.list ?_, .scalar (.date _), by simp⟩
    simp only [List.forall_mem_cons]
    exact ⟨.scalar (.float (Double.ofInt_ne_nan _)), .scalar (.bytes _), by simp⟩

theorem isData_renumbered : IsData renumbered := by
  refine .map ?_ (by simp [DistinctKeys, sameKey, sameLeaf, keyClass?]) ?_
  · simp only [List.forall_mem_cons]
    exact ⟨.str "k", .float (Double.ofInt_ne_nan _), by simp⟩
  · simp only [List.forall_mem_cons]
    refine ⟨.scalar (.date _), .list ?_, by simp⟩
    simp only [List.forall_mem_cons]
    exact ⟨.scalar (.int 5), .scalar (.bytes _), by simp⟩

theorem rearranged_shuffled : Rearranged mixed shuffled := by
  have swapped : Changes Rearranges mixed (.map true [(.str "k", .date ⟨2024, 1, 2⟩),
      (.bool true, .list [.float (.ofInt 5), .bytes [1]])]) := .here (.entries (.swap _ _ _))
  exact .tail (.single swapped) (.map (l := [_]) (.here (.toTuple _)))

theorem deepEqual_laws_mixed :
    IsData mixed ∧ IsData renumbered ∧ Rearranged mixed shuffled ∧
      deepEqual mixed renumbered = .ok true ∧ deepEqual shuffled renumbered = .ok true := by
  obtain ⟨-, -, rearranged, -⟩ := deepEqual_laws
  have equal : deepEqual mixed renumbered = .ok true := by decide +kernel
  refine ⟨isData_mixed, isData_renumbered, rearranged_shuffled, equal, ?_⟩
  rw [← equal]
  exact rearranged _ _ _ _ isData_mixed isData_renumbered rearranged_shuffled .refl

end Value

end Assay
