import Assay.Proofs.Registry.Steps

/-!
# Registries do not share

No two registries of a store hold the same dictionary, and every step keeps it so.  Hence registries
can be thought of as values: what a step does to the dictionaries is what it does to a list of
registries, where one of them is replaced or a new one is put at the end.

* `Store.Separate` — each registry has a dictionary of its own;
* `Store.views` — what the registries hold, as a list of values;
* `Store.refines_perform` — a step on a store is that step on its values, and keeps them apart.
-/

namespace Assay.Registry

variable {σ : Type}

namespace Store

/-- What the registries hold. -/
def views (st : Store σ) : List (Registry σ) := st.holders.map fun a => st.dictionary a

/-- Every registry holds a dictionary of its own. -/
structure Separate (st : Store σ) : Prop where
  /-- The dictionary is there. -/
  inRange : ∀ a ∈ st.holders, a < st.dictionaries.length
  /-- No two registries hold the same. -/
  apart : st.holders.Nodup

theorem view_eq_nth (o : Nat) (st : Store σ) : st.view o = nth o st.views := by
  rw [view, nth, views, List.getElem?_map]
  cases st.holders[o]? <;> rfl

theorem length_views (st : Store σ) : st.views.length = st.count := List.length_map _

theorem separate_initial : (initial : Store σ).Separate :=
  ⟨by simp [initial], by simp [initial]⟩

/-! ### One dictionary -/

section Dictionary

variable {a b : Nat} {r s : Registry σ} {st : Store σ}

theorem dictionary_write (h : a < st.dictionaries.length) : (st.write a r).dictionary a = r := by
  rw [dictionary, write, List.getElem?_set_self h]
  rfl

theorem dictionary_write_of_ne (h : a ≠ b) : (st.write a r).dictionary b = st.dictionary b := by
  rw [dictionary, dictionary, write, List.getElem?_set_ne h]

theorem write_write : (st.write a r).write a s = st.write a s := by
  rw [write, write, write, List.set_set]

theorem write_dictionary (h : a < st.dictionaries.length) : st.write a (st.dictionary a) = st := by
  rw [write, dictionary, List.getElem?_eq_getElem h, Option.getD_some, List.set_getElem_self]

theorem length_write : (st.write a r).dictionaries.length = st.dictionaries.length :=
  List.length_set

end Dictionary

/-- Registering in a dictionary is registering in its value. -/
theorem registerAllAt_of_ok {a : Nat} {es : List (String × Entry σ)} {st : Store σ} {r : Registry σ}
    (h : a < st.dictionaries.length) (hr : registerAll es (st.dictionary a) = .ok r) :
    registerAllAt a es st = (st.write a r, none) := by
  induction es generalizing st with
  | nil =>
    cases hr
    rw [write_dictionary h]
    rfl
  | cons e es ih =>
    obtain ⟨s, hs, hr⟩ := bind_eq_ok_iff.1 hr
    have rest := @ih (st.write a s) (by rwa [length_write]) (by rwa [dictionary_write h])
    rw [write_write] at rest
    simp only [registerAllAt, rewrite, hs, rest]

/-- Where registering fails, something else may stand in the dictionary than before. -/
theorem registerAllAt_of_error {a : Nat} {es : List (String × Entry σ)} {st : Store σ} {fault : Fault}
    (h : a < st.dictionaries.length) (hr : registerAll es (st.dictionary a) = .error fault) :
    ∃ r, registerAllAt a es st = (st.write a r, some fault) := by
  induction es generalizing st with
  | nil => cases hr
  | cons e es ih =>
    rw [registerAll] at hr
    cases hs : (st.dictionary a).register e.1 e.2 with
    | error f =>
      rw [hs] at hr
      cases hr
      refine ⟨st.dictionary a, ?_⟩
      rw [write_dictionary h]
      simp only [registerAllAt, rewrite, hs]
    | ok s =>
      rw [hs] at hr
      obtain ⟨r, rest⟩ := @ih (st.write a s) (by rwa [length_write]) (by rwa [dictionary_write h])
      rw [write_write] at rest
      exact ⟨r, by simp only [registerAllAt, rewrite, hs, rest]⟩

theorem putAllAt_eq {a : Nat} {st : Store σ} (h : a < st.dictionaries.length)
    (es : List (String × Entry σ)) :
    putAllAt a es st = st.write a ((st.dictionary a).putAll es) := by
  induction es generalizing st with
  | nil => exact (write_dictionary h).symm
  | cons e es ih =>
    have rest := @ih (st.write a ((st.dictionary a).put e.1 e.2)) (by rwa [length_write])
    rw [dictionary_write h, write_write] at rest
    exact rest

/-! ### One more dictionary -/

/-- The store with one more dictionary, which no registry holds. -/
def leave (r : Registry σ) (st : Store σ) : Store σ :=
  { st with dictionaries := st.dictionaries ++ [r.entries] }

/-- The store with one more registry, which holds one more dictionary. -/
def extend (r : Registry σ) (st : Store σ) : Store σ :=
  { st.leave r with holders := st.holders ++ [st.dictionaries.length] }

section Leave

variable {r s : Registry σ} {st : Store σ} {a : Nat}

theorem dictionary_leave : (st.leave r).dictionary st.dictionaries.length = r := by
  rw [dictionary, leave, List.getElem?_concat_length]
  rfl

theorem dictionary_leave_of_lt (h : a < st.dictionaries.length) :
    (st.leave r).dictionary a = st.dictionary a := by
  rw [dictionary, leave, List.getElem?_append_left h]
  rfl

theorem write_leave : (st.leave r).write st.dictionaries.length s = st.leave s := by
  rw [write, leave, leave, List.set_append_right _ _ (Nat.le_refl _), Nat.sub_self]
  rfl

theorem length_leave : st.dictionaries.length < (st.leave r).dictionaries.length := by
  rw [leave, List.length_append]
  exact Nat.lt_succ_self _

theorem write_extend : (st.extend r).write st.dictionaries.length s = st.extend s :=
  congrArg (fun t : Store σ => { t with holders := st.holders ++ [st.dictionaries.length] }) write_leave

end Leave

/-- A registry of entries that can all be registered is added to the store. -/
theorem construct_of_ok {es : List (String × Entry σ)} {st : Store σ} {r : Registry σ}
    (hr : ofEntries es = .ok r) : st.construct es = (st.extend r, none) := by
  have registered : registerAllAt st.dictionaries.length es (st.leave .empty) =
      ((st.leave .empty).write st.dictionaries.length r, none) :=
    registerAllAt_of_ok length_leave (by rwa [dictionary_leave])
  rw [write_leave, leave, empty] at registered
  rw [construct, registered]
  rfl

theorem construct_of_error {es : List (String × Entry σ)} {fault : Fault}
    (hr : ofEntries es = .error fault) (st : Store σ) :
    ∃ r, st.construct es = (st.leave r, some fault) := by
  obtain ⟨r, registered⟩ : ∃ r, registerAllAt st.dictionaries.length es (st.leave .empty) =
      ((st.leave .empty).write st.dictionaries.length r, some fault) :=
    registerAllAt_of_error length_leave (by rwa [dictionary_leave])
  rw [write_leave, leave, empty] at registered
  refine ⟨r, ?_⟩
  rw [construct, registered]

theorem entriesOf_eq (st : Store σ) (cover : Operand σ) :
    st.entriesOf st.holders cover = laid st.views cover := by
  cases cover with
  | entries es => rfl
  | registry o =>
    rw [laid, ← view_eq_nth, view, entriesOf]
    cases st.holders[o]? <;> rfl

/-- What an operand stands for is found through registries that were there before. -/
theorem entriesOf_extend {st : Store σ} (h : st.Separate) (r : Registry σ) (cover : Operand σ) :
    (st.extend r).entriesOf st.holders cover = st.entriesOf st.holders cover := by
  cases cover with
  | entries es => rfl
  | registry o =>
    rw [entriesOf, entriesOf]
    cases ho : st.holders[o]? with
    | none => rfl
    | some a =>
      have present := h.inRange a (List.mem_of_getElem? ho)
      exact congrArg Registry.entries (dictionary_leave_of_lt present)

/-- A merger adds the value of a merger. -/
theorem merge_of_ok {o : Nat} {cover : Operand σ} {st : Store σ} {r : Registry σ} (h : st.Separate)
    (hr : (nth o st.views).copy = .ok r) :
    st.merge o cover = (st.extend (r.putAll (laid st.views cover)), none) := by
  have holder : (st.extend r).holders[st.count]? = some st.dictionaries.length :=
    List.getElem?_concat_length
  have inside : st.dictionaries.length < (st.extend r).dictionaries.length := length_leave
  have content : (st.extend r).dictionary st.dictionaries.length = r := dictionary_leave
  rw [merge, view_eq_nth, construct_of_ok hr]
  simp only [onRegistry, holder]
  rw [putAllAt_eq inside, content, entriesOf_extend h, entriesOf_eq, write_extend]

theorem merge_of_error {o : Nat} {st : Store σ} {fault : Fault}
    (hr : (nth o st.views).copy = .error fault) (cover : Operand σ) :
    ∃ r, st.merge o cover = (st.leave r, some fault) := by
  obtain ⟨r, made⟩ := construct_of_error hr st
  exact ⟨r, by rw [merge, view_eq_nth, show st.construct (nth o st.views).entries = _ from made]⟩

/-! ### Stores as lists of values -/

section Views

variable {st : Store σ}

theorem views_write (h : st.Separate) {o a : Nat} (ho : st.holders[o]? = some a) (r : Registry σ) :
    (st.write a r).views = st.views.set o r := by
  have present := h.inRange a (List.mem_of_getElem? ho)
  have bound : o < st.holders.length := (List.getElem?_eq_some_iff.1 ho).1
  apply List.ext_getElem?
  intro i
  by_cases hi : o = i
  · subst hi
    rw [List.getElem?_set_self (by rwa [length_views]), views, List.getElem?_map]
    rw [show (st.write a r).holders = st.holders from rfl, ho]
    exact congrArg some (dictionary_write present)
  · rw [List.getElem?_set_ne hi, views, views, List.getElem?_map, List.getElem?_map]
    rw [show (st.write a r).holders = st.holders from rfl]
    cases hb : st.holders[i]? with
    | none => rfl
    | some b =>
      -- Another registry, so another dictionary.
      have other : a ≠ b := by
        rintro rfl
        exact hi ((List.getElem?_inj bound h.apart).1 (ho.trans hb.symm))
      exact congrArg some (dictionary_write_of_ne other)

theorem views_leave (h : st.Separate) (r : Registry σ) : (st.leave r).views = st.views :=
  List.map_congr_left fun a ha => dictionary_leave_of_lt (h.inRange a ha)

theorem views_extend (h : st.Separate) (r : Registry σ) : (st.extend r).views = st.views ++ [r] := by
  have added : (st.extend r).views = (st.leave r).views ++ [(st.leave r).dictionary st.dictionaries.length] :=
    List.map_append
  rw [added, views_leave h, dictionary_leave]

theorem separate_write (h : st.Separate) (a : Nat) (r : Registry σ) : (st.write a r).Separate :=
  ⟨fun b hb => by rw [length_write]; exact h.inRange b hb, h.apart⟩

theorem separate_leave (h : st.Separate) (r : Registry σ) : (st.leave r).Separate :=
  ⟨fun a ha => Nat.lt_trans (h.inRange a ha) length_leave, h.apart⟩

theorem separate_extend (h : st.Separate) (r : Registry σ) : (st.extend r).Separate := by
  constructor
  · intro a ha
    rcases List.mem_append.1 ha with ha | ha
    · exact Nat.lt_trans (h.inRange a ha) length_leave
    · rw [List.mem_singleton.1 ha]
      exact length_leave
  · refine List.nodup_append.2 ⟨h.apart, List.nodup_cons.2 ⟨List.not_mem_nil, List.nodup_nil⟩, ?_⟩
    rintro a ha _ hb rfl
    rw [List.mem_singleton.1 hb] at ha
    exact Nat.lt_irrefl _ (h.inRange _ ha)

end Views

/-! ### Steps -/

/-- A store and a fault stand for values and a fault, and no two registries share a dictionary. -/
def Refines (done : Store σ × Option Fault) (values : List (Registry σ) × Option Fault) : Prop :=
  done.1.views = values.1 ∧ done.2 = values.2 ∧ done.1.Separate

theorem refines_onRegistry {st : Store σ} (h : st.Separate) (o : Nat)
    (f : Registry σ → Except Fault (Registry σ)) :
    Refines (st.onRegistry o (rewrite f)) (workOn o f st.views) := by
  rw [onRegistry, workOn, show st.views[o]? = st.holders[o]?.map _ from List.getElem?_map]
  cases ho : st.holders[o]? with
  | none => exact ⟨rfl, rfl, h⟩
  | some a =>
    simp only [Option.map_some, rewrite]
    cases f (st.dictionary a) with
    | error fault => exact ⟨rfl, rfl, h⟩
    | ok r => exact ⟨views_write h ho r, rfl, separate_write h a r⟩

theorem refines_construct {st : Store σ} (h : st.Separate) (es : List (String × Entry σ)) :
    Refines (st.construct es) (adding (ofEntries es) st.views) := by
  cases hr : ofEntries es with
  | error fault =>
    obtain ⟨r, made⟩ := construct_of_error hr st
    rw [made]
    exact ⟨views_leave h r, rfl, separate_leave h r⟩
  | ok r =>
    rw [construct_of_ok hr]
    exact ⟨views_extend h r, rfl, separate_extend h r⟩

theorem refines_merge {st : Store σ} (h : st.Separate) (o : Nat) (cover : Operand σ) :
    Refines (st.merge o cover) (adding ((nth o st.views).merged (laid st.views cover)) st.views) := by
  cases hr : (nth o st.views).copy with
  | error fault =>
    obtain ⟨r, made⟩ := merge_of_error hr cover
    rw [made, merged, hr]
    exact ⟨views_leave h r, rfl, separate_leave h r⟩
  | ok r =>
    rw [merge_of_ok h hr, merged, hr]
    exact ⟨views_extend h _, rfl, separate_extend h _⟩

/-- **A step on a store is the step on its values.** -/
theorem refines_perform {st : Store σ} (h : st.Separate) (step : Step σ) :
    Refines (st.perform step) (step.apply st.views) := by
  cases step with
  | construct es => exact refines_construct h es
  | copy o =>
    rw [perform, view_eq_nth]
    exact refines_construct h _
  | merge o cover => exact refines_merge h o cover
  | register o name e => exact refines_onRegistry h o _
  | update o name e => exact refines_onRegistry h o _
  | announce given own e => exact refines_onRegistry h 0 _
  | clear => exact refines_onRegistry h 0 _

end Store

end Assay.Registry
