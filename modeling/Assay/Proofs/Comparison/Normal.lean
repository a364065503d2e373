import Assay.Proofs.Comparison.Stepwise
import Assay.Proofs.Value.Canonical
import Assay.Proofs.Value.Normal

/-!
# Comparisons of normal forms

A value without scalars and arrays of a numeric library compares like its normal form, in every mode and
against every value: the comparisons take sequences of either kind for one, and mappings too.

* `IsPlain` — no such scalar or array at any position;
* `Comparison.decide_normalized` — a stepwise comparison makes no difference, if it makes none at leaves;
* `compare_normalized_of_isPlain` — nor does any mode;
* `normalized_laws` — this together with what the normal form keeps;
* `normalized_extended` — a scalar of extended precision stays, and differs from the number that it is.
-/

namespace Assay

open Value (Entries IsLeafPair at? items? entries? sameKeySet)

namespace Value

/-- A scalar or an array of a numeric library. -/
inductive IsNumeric : Value → Prop
  | scalar (e : Element) (i : Item) : IsNumeric (.scalar e i)
  | array (e : Element) (v : Value) : IsNumeric (.array e v)

/-- No scalar or array of a numeric library stands at any position. -/
def IsPlain (v : Value) : Prop := Everywhere (fun x => ¬ x.IsNumeric) v

theorem opened_of_not_isNumeric {v : Value} (h : ¬ v.IsNumeric) : v.opened = v := by
  cases v with
  | array e w => exact absurd (.array e w) h
  | _ => rfl

theorem IsPlain.not_isNumeric {v : Value} (h : IsPlain v) : ¬ v.IsNumeric := h.here

theorem IsPlain.part {v y : Value} (h : IsPlain v) (hy : y ∈ v.parts) : IsPlain y :=
  Everywhere.part h (by rwa [opened_of_not_isNumeric h.not_isNumeric])

theorem items?_normalized {v : Value} {xs : List Value} (h : v.items? = some xs) :
    v.normalized.items? = some (xs.map normalized) := by
  have opened : v.opened.items? = some xs := by
    rcases items?_eq_some h with rfl | rfl <;> rfl
  rw [normalized_of_items opened]
  rfl

theorem entries?_normalized {v : Value} {es : Entries} (h : v.entries? = some es) :
    v.normalized.entries? = some (es.map fun e => (e.1, e.2.normalized)) := by
  have opened : v.opened.entries? = some es := by
    obtain ⟨frozen, rfl⟩ := entries?_eq_some h
    rfl
  rw [normalized_of_entries opened]
  rfl

/-- A value that is neither a sequence nor a mapping is its own normal form. -/
theorem normalized_of_leaf {v : Value} (h : ¬ v.IsNumeric) (hi : v.items? = none)
    (he : v.entries? = none) : v.normalized = v := by
  cases v with
  | list | tuple => cases hi
  | map => cases he
  | scalar e i => exact absurd (.scalar e i) h
  | array e w => exact absurd (.array e w) h
  | _ => rfl

/-! ### Strict comparison -/

/-- Both forms make lists of sequences and ordinary mappings of all mappings. -/
theorem collapsed_normalized {v : Value} (h : IsPlain v) : v.normalized.collapsed = v.collapsed := by
  induction v using parts_induction with
  | step v ih =>
    rw [opened_of_not_isNumeric h.not_isNumeric] at ih
    have each : ∀ y ∈ v.parts, y.normalized.collapsed = y.collapsed := fun y hy => ih y hy (h.part hy)
    cases hi : v.items? with
    | some xs =>
      rw [parts_of_items hi] at each
      have all : collapsedAll (normalizedAll xs) = collapsedAll xs := by
        rw [normalizedAll_eq_map, collapsedAll_eq_map, collapsedAll_eq_map, List.map_map]
        exact List.map_congr_left each
      rcases items?_eq_some hi with rfl | rfl
      · exact congrArg Value.list all
      · exact congrArg Value.list all
    | none =>
      cases he : v.entries? with
      | some es =>
        rw [parts_of_entries he, List.forall_mem_map] at each
        have all : collapsedEntries (normalizedEntries es) = collapsedEntries es := by
          rw [normalizedEntries_eq_map, collapsedEntries_eq_map, collapsedEntries_eq_map, List.map_map]
          exact List.map_congr_left fun e hm => congrArg (Prod.mk e.1) (each e hm)
        obtain ⟨frozen, rfl⟩ := entries?_eq_some he
        exact congrArg Value.dict all
      | none => rw [normalized_of_leaf h.not_isNumeric hi he]

end Value

/-! ### Comparisons that go step by step -/

namespace Comparison

variable {σ : Type} {c : Comparison σ}

theorem items_normalized {s : σ} {xs ys : List Value}
    (h : ∀ x ∈ xs, ∀ y, c.decide s x.normalized y = c.decide s x y) :
    c.items s (xs.map Value.normalized) ys = c.items s xs ys := by
  induction xs generalizing ys with
  | nil => rfl
  | cons x xs ih =>
    cases ys with
    | nil => rfl
    | cons y ys =>
      rw [List.forall_mem_cons] at h
      rw [List.map_cons, items, items, h.1, ih h.2]

theorem entries_normalized {s : σ} {as bs : Entries}
    (h : ∀ e ∈ as, ∀ u y, c.decide u e.2.normalized y = c.decide u e.2 y) :
    c.entries s bs (as.map fun e => (e.1, e.2.normalized)) = c.entries s bs as := by
  induction as with
  | nil => rfl
  | cons e es ih =>
    obtain ⟨k, v⟩ := e
    rw [List.forall_mem_cons] at h
    rw [List.map_cons, entries, entries, ih h.2]
    simp only [h.1]

theorem sameKeySet_normalized (as bs : Entries) :
    sameKeySet (as.map fun e => (e.1, e.2.normalized)) bs = sameKeySet as bs := by
  simp only [sameKeySet, List.length_map, List.all_map, Function.comp_def]

/-- **A comparison that goes step by step does not see the normal form**, if it does not at leaves. -/
theorem decide_normalized (hc : c.IsStepwise)
    (leaf : ∀ {s v w}, IsLeafPair v w → ¬ v.IsNumeric → c.decide s v.normalized w = c.decide s v w)
    {v : Value} (hv : v.IsPlain) (s : σ) (w : Value) :
    c.decide s v.normalized w = c.decide s v w := by
  induction v using Value.parts_induction generalizing s w with
  | step v ih =>
    rw [Value.opened_of_not_isNumeric hv.not_isNumeric] at ih
    have each : ∀ y ∈ v.parts, ∀ u z, c.decide u y.normalized z = c.decide u y z :=
      fun y hy u z => ih y hy (hv.part hy) u z
    rcases Value.pair_cases v w with ⟨xs, ys, hx, hy⟩ | ⟨as, bs, ha, hb⟩ | h
    · rw [Value.parts_of_items hx] at each
      rw [hc.items hx hy, hc.items (Value.items?_normalized hx) hy, List.length_map,
        items_normalized fun x hm => each x hm s]
    · rw [Value.parts_of_entries ha, List.forall_mem_map] at each
      rw [hc.entries ha hb, hc.entries (Value.entries?_normalized ha) hb, sameKeySet_normalized,
        entries_normalized each]
    · exact leaf h hv.not_isNumeric

/-- At leaves neither equality sees it: a collection is told from what is none by its family. -/
theorem equal_normalized_of_isLeafPair {v w : Value} (h : IsLeafPair v w) (hv : ¬ v.IsNumeric) :
    Value.deepEqual v.normalized w = Value.deepEqual v w ∧
      ∀ t, Value.approxEqual t v.normalized w = Value.approxEqual t v w := by
  obtain ⟨hi, he⟩ := h
  cases v with
  | list xs => cases w <;> first | exact ⟨rfl, fun _ => rfl⟩ | simp [items?] at hi
  | tuple xs => cases w <;> first | exact ⟨rfl, fun _ => rfl⟩ | simp [items?] at hi
  | map frozen es => cases w <;> first | exact ⟨rfl, fun _ => rfl⟩ | simp [entries?] at he
  | scalar e i => exact absurd (.scalar e i) hv
  | array e x => exact absurd (.array e x) hv
  | _ => exact ⟨rfl, fun _ => rfl⟩

end Comparison

namespace Value

/-- **No mode sees the normal form** of a value without scalars and arrays of a numeric library: the
answers are equal, and so are the faults. -/
theorem compare_normalized_of_isPlain {v : Value} (h : IsPlain v) (mode : Value) (t : Option Tolerance)
    (w : Value) : compare mode t v.normalized w = compare mode t v w := by
  have strict : strictEqual v.normalized w = strictEqual v w := by
    have canonical : v.normalized.canonical = v.canonical := by
      rw [canonical, canonical, collapsed_normalized h]
    rw [strictEqual, strictEqual, canonical]
  have deep : deepEqual v.normalized w = deepEqual v w :=
    Comparison.decide_normalized Comparison.isStepwise_deep
      (fun leaf hv => (Comparison.equal_normalized_of_isLeafPair leaf hv).1) h () w
  have approx (u : Tolerance) : approxEqual u v.normalized w = approxEqual u v w :=
    Comparison.decide_normalized Comparison.isStepwise_approx
      (fun leaf hv => (Comparison.equal_normalized_of_isLeafPair leaf hv).2 _) h u w
  simp only [compare, strict, deep, approx]

/-- **The normal form of a value.**  It has the same positions, with a list of the same length for each
sequence and a mapping with the same keys in their order for each mapping.  A tuple, a read-only mapping, a
scalar or an array is found at none of them, but where the value has a scalar of extended precision.  It is
its own normal form, and where the value has no scalar and no array, every comparison comes to the same. -/
theorem normalized_laws (v : Value) :
    NormalForm v v.normalized ∧ v.normalized.normalized = v.normalized ∧
      (IsPlain v → ∀ mode t w, compare mode t v.normalized w = compare mode t v w) :=
  ⟨normalForm_normalized v, normalized_normalized v, compare_normalized_of_isPlain⟩

/-- A tuple inside a read-only mapping. -/
def packed : Value := .map true [(.int 1, .tuple [.null, .bool true])]

theorem isPlain_packed : IsPlain packed := by
  have null : IsPlain .null := everywhere_iff_parts.2 ⟨by rintro ⟨⟩, by simp [opened, parts]⟩
  have truth : IsPlain (.bool true) := everywhere_iff_parts.2 ⟨by rintro ⟨⟩, by simp [opened, parts]⟩
  have items : IsPlain (.tuple [.null, .bool true]) :=
    everywhere_iff_parts.2
      ⟨by rintro ⟨⟩, List.forall_mem_cons.2 ⟨null, List.forall_mem_singleton.2 truth⟩⟩
  exact everywhere_iff_parts.2 ⟨by rintro ⟨⟩, List.forall_mem_singleton.2 items⟩

/-- A tuple compares like the list that it becomes. -/
theorem normalized_laws_packed :
    IsPlain packed ∧ packed.normalized = .dict [(.int 1, .list [.null, .bool true])] ∧
      compare (.str "deep") none packed.normalized packed = compare (.str "deep") none packed packed :=
  ⟨isPlain_packed, rfl, (normalized_laws packed).2.2 isPlain_packed (.str "deep") none packed⟩

/-- **A scalar of extended precision stays in the normal form**, and a list that holds it is not deeply equal
to the list of the number that it is. -/
theorem normalized_extended :
    let x : Value := .scalar .extended (.float (.ofInt 1))
    at? [0] (Value.list [x]).normalized = some x ∧ x.IsRaw ∧
      compare (.str "deep") none (Value.list [x]).normalized (.list [.int 1]) = .ok false := by
  intro x
  exact ⟨rfl, .scalar _ _, rfl⟩

end Value

end Assay
