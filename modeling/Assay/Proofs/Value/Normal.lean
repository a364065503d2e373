import Assay.Proofs.Value.Occurs
import Assay.Proofs.Value.Position
import Mathlib.Logic.Basic

/-!
# What the normal form keeps

A value and its normal form have the same positions, if an array is taken for what it holds.  So what the
normal form does to a value is said position by position:

* `at?` — the value at a position, which is the list of the indices that lead there;
* `NormalAt` — what stands in the normal form in place of a value;
* `NormalAt.isRaw_iff` — nothing is left of what the normal form does away with, scalars of extended
  precision apart;
* `at?_normalized` — the values at the positions of the normal form are the normal forms of those at the
  positions of the value;
* `holdsNonFinite_normalized_iff` — it holds a float that is not finite exactly if the value shows one.
-/

namespace Assay.Value

/-! ### Positions -/

/-- What an array holds; any other value is itself. -/
def opened : Value → Value
  | .array _ v => v.opened
  | v => v

/-- The items of a sequence, or the values of a mapping. -/
def parts : Value → List Value
  | .list xs => xs
  | .tuple xs => xs
  | .map _ es => es.map Prod.snd
  | _ => []

/-- The value at a position; the indices lead through arrays. -/
def at? : List Nat → Value → Option Value
  | [], v => some v
  | i :: p, v => v.opened.parts[i]?.bind (at? p)

theorem at?_cons_eq_some {i : Nat} {p : List Nat} {v x : Value} :
    at? (i :: p) v = some x ↔ ∃ y, v.opened.parts[i]? = some y ∧ at? p y = some x :=
  Option.bind_eq_some_iff

theorem parts_of_items {v : Value} {xs : List Value} (h : v.items? = some xs) : v.parts = xs := by
  rcases items?_eq_some h with rfl | rfl <;> rfl

theorem parts_of_entries {v : Value} {es : Entries} (h : v.entries? = some es) :
    v.parts = es.map Prod.snd := by
  obtain ⟨frozen, rfl⟩ := entries?_eq_some h
  rfl

/-- A property holds at some position exactly if it holds of the value or at a position of a part. -/
theorem exists_at?_iff {P : Value → Prop} {v : Value} :
    (∃ p x, at? p v = some x ∧ P x) ↔
      P v ∨ ∃ y ∈ v.opened.parts, ∃ p x, at? p y = some x ∧ P x := by
  constructor
  · rintro ⟨p, x, hx, h⟩
    cases p with
    | nil =>
      cases hx
      exact Or.inl h
    | cons i p =>
      obtain ⟨y, hy, hx⟩ := at?_cons_eq_some.1 hx
      exact Or.inr ⟨y, List.mem_of_getElem? hy, p, x, hx, h⟩
  · rintro (h | ⟨y, hy, p, x, hx, h⟩)
    · exact ⟨[], v, rfl, h⟩
    · obtain ⟨i, hi⟩ := List.mem_iff_getElem?.1 hy
      exact ⟨i :: p, x, at?_cons_eq_some.2 ⟨y, hi, hx⟩, h⟩

/-- A property holds at every position. -/
def Everywhere (P : Value → Prop) (v : Value) : Prop := ∀ p x, at? p v = some x → P x

theorem Everywhere.here {P : Value → Prop} {v : Value} (h : Everywhere P v) : P v := h [] v rfl

theorem Everywhere.part {P : Value → Prop} {v y : Value} (h : Everywhere P v)
    (hy : y ∈ v.opened.parts) : Everywhere P y := by
  intro p x hx
  obtain ⟨i, hi⟩ := List.mem_iff_getElem?.1 hy
  exact h (i :: p) x (at?_cons_eq_some.2 ⟨y, hi, hx⟩)

theorem everywhere_iff_parts {P : Value → Prop} {v : Value} :
    Everywhere P v ↔ P v ∧ ∀ y ∈ v.opened.parts, Everywhere P y := by
  constructor
  · intro h
    exact ⟨h.here, fun y hy => h.part hy⟩
  · rintro ⟨here, below⟩ p x hx
    cases p with
    | nil =>
      cases hx
      exact here
    | cons i p =>
      obtain ⟨y, hy, hx⟩ := at?_cons_eq_some.1 hx
      exact below y (List.mem_of_getElem? hy) p x hx

theorem sizeOf_opened_le : ∀ v : Value, sizeOf v.opened ≤ sizeOf v
  | .array e v => by
    have inner := sizeOf_opened_le v
    rw [opened, array.sizeOf_spec]
    omega
  | .absent | .null | .bool _ | .int _ | .float _ | .str _ | .list _ | .tuple _ | .map _ _ | .bytes _
  | .date _ | .moment _ | .foreign _ | .scalar _ _ => Nat.le_refl _

theorem sizeOf_lt_of_mem_parts {v y : Value} (h : y ∈ v.parts) : sizeOf y < sizeOf v := by
  cases v with
  | list xs =>
    have smaller : sizeOf y < sizeOf xs := List.sizeOf_lt_of_mem h
    simp only [list.sizeOf_spec]
    omega
  | tuple xs =>
    have smaller : sizeOf y < sizeOf xs := List.sizeOf_lt_of_mem h
    simp only [tuple.sizeOf_spec]
    omega
  | map frozen es =>
    obtain ⟨⟨k, w⟩, he, rfl⟩ := List.mem_map.1 h
    have smaller := List.sizeOf_lt_of_mem he
    simp only [Prod.mk.sizeOf_spec, map.sizeOf_spec] at smaller ⊢
    omega
  | _ => cases h

/-- What holds of a value if it holds of its parts holds of every value. -/
theorem parts_induction {P : Value → Prop} (step : ∀ v, (∀ y ∈ v.opened.parts, P y) → P v)
    (v : Value) : P v := by
  induction h : sizeOf v using Nat.strongRecOn generalizing v with
  | ind n ih =>
    subst h
    refine step v fun y hy => ih _ ?_ y rfl
    exact Nat.lt_of_lt_of_le (sizeOf_lt_of_mem_parts hy) (sizeOf_opened_le v)

/-! ### The normal form of an array -/

theorem opened_ne_array {e : Element} {w : Value} : ∀ v : Value, v.opened ≠ .array e w
  | .array _ v => opened_ne_array v
  | .absent | .null | .bool _ | .int _ | .float _ | .str _ | .list _ | .tuple _ | .map _ _ | .bytes _
  | .date _ | .moment _ | .foreign _ | .scalar _ _ => nofun

theorem normalized_opened : ∀ v : Value, v.opened.normalized = v.normalized
  | .array _ v => normalized_opened v
  | .absent | .null | .bool _ | .int _ | .float _ | .str _ | .list _ | .tuple _ | .map _ _ | .bytes _
  | .date _ | .moment _ | .foreign _ | .scalar _ _ => rfl

/-- No array is left. -/
theorem opened_normalized : ∀ v : Value, v.normalized.opened = v.normalized
  | .array _ v => opened_normalized v
  | .scalar e i => by
    rw [normalized]
    cases e <;> cases i <;> rfl
  | .absent | .null | .bool _ | .int _ | .float _ | .str _ | .list _ | .tuple _ | .map _ _ | .bytes _
  | .date _ | .moment _ | .foreign _ => rfl

theorem parts_plain (e : Element) (i : Item) : (e.plain i).parts = [] := by
  cases e <;> cases i <;> rfl

theorem normalizedEntries_eq_map (es : Entries) :
    normalizedEntries es = es.map fun e => (e.1, e.2.normalized) := by
  induction es with
  | nil => rfl
  | cons e es ih =>
    obtain ⟨k, v⟩ := e
    rw [normalizedEntries, ih, List.map_cons]

/-- The normal form of a sequence, or of an array that holds one. -/
theorem normalized_of_items {v : Value} {xs : List Value} (h : v.opened.items? = some xs) :
    v.normalized = .list (xs.map normalized) := by
  rw [← normalized_opened, ← normalizedAll_eq_map]
  rcases items?_eq_some h with h | h <;> rw [h] <;> rfl

theorem normalized_of_entries {v : Value} {es : Entries} (h : v.opened.entries? = some es) :
    v.normalized = .dict (es.map fun e => (e.1, e.2.normalized)) := by
  rw [← normalized_opened, ← normalizedEntries_eq_map]
  obtain ⟨frozen, h⟩ := entries?_eq_some h
  rw [h]
  rfl

/-- The parts of the normal form are the normal forms of the parts, in their order. -/
theorem parts_normalized : ∀ v : Value, v.normalized.parts = v.opened.parts.map normalized
  | .array _ v => parts_normalized v
  | .list xs => normalizedAll_eq_map xs
  | .tuple xs => normalizedAll_eq_map xs
  | .map _ es => by
    show (normalizedEntries es).map Prod.snd = (es.map Prod.snd).map normalized
    rw [normalizedEntries_eq_map, List.map_map, List.map_map]
    rfl
  | .scalar e i => parts_plain e i
  | .absent | .null | .bool _ | .int _ | .float _ | .str _ | .bytes _ | .date _ | .moment _
  | .foreign _ => rfl

/-- **The values at the positions of the normal form.** -/
theorem at?_normalized (p : List Nat) (v : Value) : at? p v.normalized = (at? p v).map normalized := by
  induction p generalizing v with
  | nil => rfl
  | cons i p ih =>
    rw [at?, at?, opened_normalized, parts_normalized, List.getElem?_map]
    cases v.opened.parts[i]? with
    | none => rfl
    | some y => exact ih y

/-! ### One position -/

/-- What the normal form does away with: tuples, read-only mappings, numeric scalars and arrays. -/
inductive IsRaw : Value → Prop
  | tuple (xs : List Value) : IsRaw (.tuple xs)
  | frozen (es : Entries) : IsRaw (.map true es)
  | scalar (e : Element) (i : Item) : IsRaw (.scalar e i)
  | array (e : Element) (v : Value) : IsRaw (.array e v)

/-- A scalar of extended precision, or an array that holds nothing else. -/
def IsExtended (v : Value) : Prop := ∃ i, v.opened = .scalar .extended i

/-- What stands in a normal form in place of a value: a list of the same length, a mapping with the same
keys in their order, what a scalar gives for its plain value, and anything else as it is. -/
inductive NormalAt : Value → Value → Prop
  | sequence {x : Value} {xs ys : List Value} (hx : x.opened.items? = some xs)
      (hl : ys.length = xs.length) : NormalAt x (.list ys)
  | mapping {x : Value} {es fs : Entries} (hx : x.opened.entries? = some es)
      (hk : fs.map Prod.fst = es.map Prod.fst) : NormalAt x (.dict fs)
  | scalar {x : Value} {e : Element} {i : Item} (hx : x.opened = .scalar e i) : NormalAt x (e.plain i)
  | other {x : Value} (hi : x.opened.items? = none) (he : x.opened.entries? = none)
      (hs : ∀ e i, x.opened ≠ .scalar e i) : NormalAt x x.opened

theorem normalAt_normalized (x : Value) : NormalAt x x.normalized := by
  rw [← normalized_opened]
  cases h : x.opened with
  | list xs =>
    have items : x.opened.items? = some xs := congrArg items? h
    exact .sequence items (by rw [normalizedAll_eq_map, List.length_map])
  | tuple xs =>
    have items : x.opened.items? = some xs := congrArg items? h
    exact .sequence items (by rw [normalizedAll_eq_map, List.length_map])
  | map frozen es =>
    have entries : x.opened.entries? = some es := congrArg entries? h
    exact .mapping entries (normalizedEntries_keys es)
  | scalar e i => exact .scalar h
  | array e v => exact absurd h (opened_ne_array x)
  | _ =>
    have other : NormalAt x x.opened := .other (by rw [h]; rfl) (by rw [h]; rfl) (by simp [h])
    rw [h] at other
    exact other

theorem isRaw_plain_iff {e : Element} {i : Item} : (e.plain i).IsRaw ↔ e = .extended := by
  constructor
  · intro h
    cases e with
    | extended => rfl
    | _ => cases i <;> cases h
  · rintro rfl
    exact .scalar .extended i

/-- **Of what the normal form does away with nothing is left but scalars of extended precision.** -/
theorem NormalAt.isRaw_iff {x y : Value} (h : NormalAt x y) : y.IsRaw ↔ x.IsExtended := by
  cases h with
  | sequence hx _ =>
    refine iff_of_false nofun ?_
    rintro ⟨i, hi⟩
    rw [hi] at hx
    cases hx
  | mapping hx _ =>
    refine iff_of_false nofun ?_
    rintro ⟨i, hi⟩
    rw [hi] at hx
    cases hx
  | @scalar e i hx =>
    rw [isRaw_plain_iff, IsExtended, hx]
    constructor
    · rintro rfl
      exact ⟨i, rfl⟩
    · rintro ⟨j, hj⟩
      cases hj
      rfl
  | other hi he hs =>
    refine iff_of_false ?_ fun ⟨i, h⟩ => hs _ i h
    intro raw
    cases hv : x.opened with
    | list | tuple => rw [hv] at hi; cases hi
    | map => rw [hv] at he; cases he
    | scalar e i => exact hs e i hv
    | array e v => exact opened_ne_array x hv
    | _ => rw [hv] at raw; cases raw

/-! ### All positions -/

/-- A value and another one that has the same positions, with the normal form of each value in place of it. -/
structure NormalForm (v w : Value) : Prop where
  positions : ∀ p, (at? p w).isSome = (at? p v).isSome
  normal : ∀ p x y, at? p v = some x → at? p w = some y → NormalAt x y
  plain : ∀ p x y, at? p v = some x → at? p w = some y → (y.IsRaw ↔ x.IsExtended)

theorem normalForm_normalized (v : Value) : NormalForm v v.normalized := by
  have normal (p : List Nat) (x y : Value) (hx : at? p v = some x) (hy : at? p v.normalized = some y) :
      NormalAt x y := by
    rw [at?_normalized, hx] at hy
    cases hy
    exact normalAt_normalized x
  refine ⟨?_, normal, fun p x y hx hy => (normal p x y hx hy).isRaw_iff⟩
  intro p
  rw [at?_normalized, Option.isSome_map]

mutual

/-- A normal form is its own normal form. -/
theorem normalized_normalized : ∀ v : Value, v.normalized.normalized = v.normalized
  | .list xs => congrArg Value.list (normalizedAll_normalizedAll xs)
  | .tuple xs => congrArg Value.list (normalizedAll_normalizedAll xs)
  | .map _ es => congrArg Value.dict (normalizedEntries_normalizedEntries es)
  | .array _ v => normalized_normalized v
  | .scalar e i => by
    rw [normalized]
    cases e <;> cases i <;> rfl
  | .absent | .null | .bool _ | .int _ | .float _ | .str _ | .bytes _ | .date _ | .moment _
  | .foreign _ => rfl

theorem normalizedAll_normalizedAll : ∀ xs : List Value,
    normalizedAll (normalizedAll xs) = normalizedAll xs
  | [] => rfl
  | x :: xs => by
    simp only [normalizedAll]
    rw [normalized_normalized x, normalizedAll_normalizedAll xs]

theorem normalizedEntries_normalizedEntries : ∀ es : Entries,
    normalizedEntries (normalizedEntries es) = normalizedEntries es
  | [] => rfl
  | (k, v) :: es => by
    simp only [normalizedEntries]
    rw [normalized_normalized v, normalizedEntries_normalizedEntries es]

end

/-- A normal form is wrapped in no scalar that is a float or a text as well. -/
theorem unwrapped_normalized : ∀ v : Value, v.normalized.unwrapped = v.normalized
  | .array _ v => unwrapped_normalized v
  | .scalar e i => by
    rw [normalized]
    cases e <;> cases i <;> rfl
  | .absent | .null | .bool _ | .int _ | .float _ | .str _ | .list _ | .tuple _ | .map _ _ | .bytes _
  | .date _ | .moment _ | .foreign _ => rfl

/-! ### Special floats -/

/-- A float that is not finite, plain or in a scalar of any precision. -/
def IsSpecialFloat (v : Value) : Prop :=
  ∃ d : Double, (v.opened = .float d ∨ ∃ e, v.opened = .scalar e (.float d)) ∧ d.isFinite = false

/-- Some position has a float that is not finite, and is not of extended precision. -/
def ShowsSpecial (v : Value) : Prop :=
  ∃ p x, at? p v = some x ∧ x.IsSpecialFloat ∧ ¬ x.IsExtended

/-- What holds a float that is not finite is such a float, or has a part that holds one. -/
theorem holdsNonFinite_iff_parts {v : Value} :
    v.HoldsNonFinite ↔ v.IsNonFinite ∨ ∃ y ∈ v.parts, y.HoldsNonFinite := by
  have collection (h : ∀ x, v.unwrapped ≠ .float x) {Q : Prop} : Q ↔ v.IsNonFinite ∨ Q :=
    (or_iff_right (not_isNonFinite_of_unwrapped h)).symm
  cases v with
  | list xs => exact holdsNonFinite_list.trans (collection nofun)
  | tuple xs => exact holdsNonFinite_tuple.trans (collection nofun)
  | map frozen es =>
    refine holdsNonFinite_map.trans (Iff.trans ?_ (collection nofun))
    simp only [parts, List.mem_map, exists_exists_and_eq_and]
  | _ =>
    rw [holdsNonFinite_leaf (by simp) (by simp) (by simp)]
    simp [parts]

/-- The normal form is a float that is not finite exactly if the value was, in a precision that has a
plain counterpart. -/
theorem isNonFinite_normalized_iff {v : Value} :
    v.normalized.IsNonFinite ↔ v.IsSpecialFloat ∧ ¬ v.IsExtended := by
  rw [← normalized_opened, IsSpecialFloat, IsExtended]
  cases h : v.opened with
  | array e w => exact absurd h (opened_ne_array v)
  | float d => simp [normalized, IsNonFinite, unwrapped]
  | scalar e i => cases e <;> cases i <;> simp [normalized, Element.plain, Item.toValue, IsNonFinite, unwrapped]
  | _ => simp [normalized, IsNonFinite, unwrapped]

/-- **The normal form holds a float that is not finite exactly if the value shows one.** -/
theorem holdsNonFinite_normalized_iff (v : Value) : v.normalized.HoldsNonFinite ↔ v.ShowsSpecial := by
  induction v using parts_induction with
  | step v ih =>
    rw [ShowsSpecial, exists_at?_iff, holdsNonFinite_iff_parts, parts_normalized,
      isNonFinite_normalized_iff]
    refine or_congr_right ?_
    simp only [List.mem_map, exists_exists_and_eq_and]
    exact exists_congr fun y => and_congr_right fun hy => ih y hy

/-- A normal form shows what the value shows. -/
theorem showsSpecial_normalized_iff (v : Value) : v.normalized.ShowsSpecial ↔ v.ShowsSpecial := by
  rw [← holdsNonFinite_normalized_iff, ← holdsNonFinite_normalized_iff, normalized_normalized]

end Assay.Value
