import Assay.Registry.Basic
import Mathlib.Data.List.Induction
import Mathlib.Data.List.Nodup

/-!
# Names and entries of a registry

What is inserted into a registry comes in some order, and a name may come again.  The names of the
registry are those, in order of the first time that each came.

* `Lists` — the names are those of insertions, kept by every way to insert;
* `register_cases` — the three ways in which registering comes out;
* `find?_put`, `find?_register` — what stands under a name afterwards;
* `eq_of_registerAll`, `find?_of_registerAll` — the same of entries that are all registered.
-/

namespace Assay.Registry

variable {σ : Type}

/-! ### First occurrences -/

theorem eraseDups_concat (names : List String) (name : String) :
    (names ++ [name]).eraseDups =
      if name ∈ names then names.eraseDups else names.eraseDups ++ [name] := by
  rw [List.eraseDups_append]
  by_cases h : name ∈ names <;> simp [List.removeAll, h, List.eraseDups_cons]

theorem nodup_append_singleton {names : List String} {name : String} (h : name ∉ names)
    (hn : names.Nodup) : (names ++ [name]).Nodup := by
  rw [← List.concat_eq_append]
  exact List.Nodup.concat h hn

theorem nodup_eraseDups (names : List String) : names.eraseDups.Nodup := by
  induction names using List.reverseRecOn with
  | nil => exact List.nodup_nil
  | append_singleton names name ih =>
    rw [eraseDups_concat]
    split
    · exact ih
    · rename_i h
      exact nodup_append_singleton (mt List.mem_eraseDups.1 h) ih

theorem eraseDups_of_nodup {names : List String} (h : names.Nodup) : names.eraseDups = names := by
  induction names using List.reverseRecOn with
  | nil => rfl
  | append_singleton names name ih =>
    rw [← List.concat_eq_append, List.nodup_concat] at h
    rw [eraseDups_concat, if_neg h.1, ih h.2]

/-- The names of the registry are those that were inserted, each at its first place. -/
def Lists (inserted : List String) (r : Registry σ) : Prop := r.names = inserted.eraseDups

section Lists

variable {inserted : List String} {r r' : Registry σ}

theorem lists_empty : Lists [] (empty : Registry σ) := rfl

theorem Lists.nodup (h : Lists inserted r) : r.names.Nodup := by
  rw [Lists] at h
  rw [h]
  exact nodup_eraseDups inserted

theorem Lists.mem_iff (h : Lists inserted r) {name : String} : name ∈ r.names ↔ name ∈ inserted := by
  rw [Lists] at h
  rw [h, List.mem_eraseDups]

/-! ### Ways to insert -/

/-- Registering fails for what cannot be called and for a name that is present, and appends else. -/
theorem register_cases (name : String) (e : Entry σ) (r : Registry σ) :
    e.isCallable = false ∧ r.register name e = .error (.notCallable name) ∨
      e.isCallable = true ∧ name ∈ r.names ∧ r.register name e = .error (.taken name) ∨
      e.isCallable = true ∧ name ∉ r.names ∧ r.register name e = .ok ⟨r.entries ++ [(name, e)]⟩ := by
  unfold register
  cases he : e.isCallable with
  | false => exact Or.inl ⟨rfl, rfl⟩
  | true =>
    have present : r.contains name = true ↔ name ∈ r.names := by
      simp [contains]
    by_cases h : name ∈ r.names
    · exact Or.inr (Or.inl ⟨rfl, h, by rw [present.2 h]; rfl⟩)
    · exact Or.inr (Or.inr ⟨rfl, h, by rw [Bool.eq_false_iff.2 (mt present.1 h)]; rfl⟩)

/-- What is registered can be called, is new under its name, and goes last. -/
theorem register_eq_ok {name : String} {e : Entry σ} (h : r.register name e = .ok r') :
    e.isCallable = true ∧ name ∉ r.names ∧ r' = ⟨r.entries ++ [(name, e)]⟩ := by
  rcases register_cases name e r with ⟨-, hr⟩ | ⟨-, -, hr⟩ | ⟨hc, hn, hr⟩
  · cases h.symm.trans hr
  · cases h.symm.trans hr
  · exact ⟨hc, hn, Except.ok.inj (h.symm.trans hr)⟩

theorem Lists.register {name : String} {e : Entry σ} (h : Lists inserted r)
    (hr : r.register name e = .ok r') : Lists (inserted ++ [name]) r' := by
  have fresh : name ∉ inserted := by
    rw [← h.mem_iff]
    exact (register_eq_ok hr).2.1
  rw [Lists, names_register hr, eraseDups_concat, if_neg fresh, show r.names = _ from h]

theorem Lists.put (h : Lists inserted r) (name : String) (e : Entry σ) :
    Lists (inserted ++ [name]) (r.put name e) := by
  rw [Lists] at h ⊢
  rw [names_put, eraseDups_concat, h]
  simp only [List.mem_eraseDups]

/-- Entries that are all registered are inserted in order. -/
theorem Lists.registerAll {es : List (String × Entry σ)} (h : Lists inserted r)
    (hr : registerAll es r = .ok r') : Lists (inserted ++ es.map Prod.fst) r' := by
  induction es generalizing inserted r with
  | nil =>
    cases hr
    rwa [List.map_nil, List.append_nil]
  | cons e es ih =>
    obtain ⟨s, hs, hr⟩ := bind_eq_ok_iff.1 hr
    have rest := ih (h.register hs) hr
    rwa [List.append_assoc] at rest

theorem Lists.putAll (h : Lists inserted r) (es : List (String × Entry σ)) :
    Lists (inserted ++ es.map Prod.fst) (r.putAll es) := by
  induction es generalizing inserted r with
  | nil => rwa [List.map_nil, List.append_nil]
  | cons e es ih =>
    have rest := ih (h.put e.1 e.2)
    rwa [List.append_assoc] at rest

end Lists

/-! ### What stands under a name -/

theorem find?_cons (n : String) (x : String × Entry σ) (es : List (String × Entry σ)) :
    find? n ⟨x :: es⟩ = if x.1 = n then some x.2 else find? n ⟨es⟩ := by
  by_cases h : x.1 = n <;> simp [find?, h]

/-- A put changes what stands under its name, and nothing else. -/
theorem find?_put (n name : String) (e : Entry σ) (r : Registry σ) :
    (r.put name e).find? n = if name = n then some e else r.find? n := by
  obtain ⟨es⟩ := r
  induction es with
  | nil => exact find?_cons n (name, e) []
  | cons x es ih =>
    rw [put] at ih
    by_cases hx : x.1 = name
    · rw [put, putInto, if_pos hx, find?_cons, find?_cons, hx]
      split <;> rfl
    · rw [put, putInto, if_neg hx, find?_cons, ih, find?_cons]
      by_cases hn : name = n
      · subst hn
        rw [if_neg hx, if_pos rfl, if_pos rfl]
      · rw [if_neg hn, if_neg hn]

/-- Registering keeps what stands under a name. -/
theorem find?_register {n name : String} {e f : Entry σ} {r r' : Registry σ}
    (h : r.register name e = .ok r') (hf : r.find? n = some f) : r'.find? n = some f := by
  obtain ⟨-, -, rfl⟩ := register_eq_ok h
  rw [find?, List.find?_append, Option.map_or, ← find?, hf]
  rfl

theorem find?_register_self {name : String} {e : Entry σ} {r r' : Registry σ}
    (h : r.register name e = .ok r') : r'.find? name = some e := by
  obtain ⟨-, fresh, rfl⟩ := register_eq_ok h
  have absent : r.entries.find? (fun x => x.1 == name) = none := by
    rw [List.find?_eq_none]
    intro x hx same
    rw [beq_iff_eq] at same
    exact fresh (same ▸ List.mem_map_of_mem hx)
  simp [find?, List.find?_append, absent]

/-- What can be called is an operation, and the table of operations has it. -/
theorem operations_of_find? {name : String} {e : Entry σ} {r : Registry σ} (h : r.find? name = some e)
    (hc : e.isCallable = true) : ∃ f, e = .operation f ∧ r.operations name = some f := by
  cases e with
  | operation f =>
    refine ⟨f, rfl, ?_⟩
    rw [operations, h]
    rfl
  | inert v => cases hc

/-! ### Entries that are all registered -/

section

variable {es : List (String × Entry σ)} {r r' : Registry σ}

theorem registerAll_append (es more : List (String × Entry σ)) (r : Registry σ) :
    registerAll (es ++ more) r = registerAll es r >>= registerAll more := by
  induction es generalizing r with
  | nil => rfl
  | cons e es ih =>
    rw [List.cons_append, registerAll, registerAll]
    cases r.register e.1 e.2 with
    | error f => rfl
    | ok s => exact ih s

/-- They stand in order behind what was there. -/
theorem eq_of_registerAll (h : registerAll es r = .ok r') : r' = ⟨r.entries ++ es⟩ := by
  induction es generalizing r with
  | nil =>
    cases h
    rw [List.append_nil]
  | cons e es ih =>
    obtain ⟨s, hs, hrest⟩ := bind_eq_ok_iff.1 h
    obtain ⟨-, -, rfl⟩ := register_eq_ok hs
    rw [ih hrest, List.append_assoc, List.singleton_append]

theorem find?_registerAll {n : String} {f : Entry σ} (h : registerAll es r = .ok r')
    (hf : r.find? n = some f) : r'.find? n = some f := by
  induction es generalizing r with
  | nil =>
    cases h
    exact hf
  | cons e es ih =>
    obtain ⟨s, hs, hrest⟩ := bind_eq_ok_iff.1 h
    exact ih hrest (find?_register hs hf)

/-- Each of them can be called, and stands under its name. -/
theorem find?_of_registerAll {x : String × Entry σ} (h : registerAll es r = .ok r') (hx : x ∈ es) :
    x.2.isCallable = true ∧ r'.find? x.1 = some x.2 := by
  induction es generalizing r with
  | nil => cases hx
  | cons e es ih =>
    obtain ⟨s, hs, hrest⟩ := bind_eq_ok_iff.1 h
    cases List.mem_cons.1 hx with
    | inl hx =>
      subst hx
      exact ⟨(register_eq_ok hs).1, find?_registerAll hrest (find?_register_self hs)⟩
    | inr hx => exact ih hrest hx

end

end Assay.Registry
