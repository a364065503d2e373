import Assay.Proofs.Number.Closest
import Assay.Proofs.Value.KeySet
import Assay.Spec.Document

/-!
# Documents that belong to the grammar

The grammar says of each form what stands under which name, and which names may be there at all.  A
value has no problem as a form exactly if it belongs to the form.

* `Under`, `Has`, `Only` — what stands under a name, and which names there are;
* `IsTolerance`, `IsDefaults`, `IsTest`, `IsGroup`, `IsSpecification` — the forms;
* `isTolerance_iff`, `test_eq_nil_iff`, `group_eq_nil_iff` — a value belongs to a form exactly if it
  has no problem there;
* `document_eq_nil_iff` — and so for whole documents.
-/

namespace Assay.Grammar

open Value (Entries)

/-! ### The forms -/

/-- The value stands under the name. -/
def Under (es : Entries) (name : String) (v : Value) : Prop :=
  ∃ k, (k, v) ∈ es ∧ k.textKey? = some name

/-- Some value stands under the name. -/
def Has (es : Entries) (name : String) : Prop := ∃ v, Under es name v

/-- Every key is one of the names. -/
def Only (names : List String) (es : Entries) : Prop :=
  ∀ k v, (k, v) ∈ es → ∃ n ∈ names, k.textKey? = some n

/-- A text. -/
def IsText (v : Value) : Prop := ∃ s, v.asText? = some s

/-- A text that is not empty. -/
def IsName (v : Value) : Prop := ∃ s, v.asText? = some s ∧ s ≠ ""

/-- A boolean. -/
def IsTruthValue (v : Value) : Prop := ∃ b, v = .bool b

/-- A comparison mode. -/
def IsMode (v : Value) : Prop :=
  v.unwrapped = .str "strict" ∨ v.unwrapped = .str "deep" ∨ v.unwrapped = .str "approx"

/-- A list of values of a form. -/
def IsListOf (form : Value → Prop) (v : Value) : Prop := ∃ xs, v = .list xs ∧ ∀ x ∈ xs, form x

/-- The number that a value is; a boolean is none. -/
def numberOf? : Value → Option Quantity
  | .int i => some (.int i)
  | .float x => some (.double x)
  | .scalar _ (.int i) => some (.int i)
  | .scalar _ (.float x) => some (.double x)
  | _ => none

/-- A number below zero; not-a-number is none. -/
inductive BelowZero : Quantity → Prop
  | value {q : Quantity} {r : Rat} (h : q.rational? = some r) (hr : r < 0) : BelowZero q
  | infinite : BelowZero (.double (.infinite true))

/-- A number that is not below zero. -/
def IsBound (v : Value) : Prop := ∃ q, numberOf? v = some q ∧ ¬ BelowZero q

/-- A tolerance: a bound, or a mapping of at most two bounds and a mapping to tolerances. -/
inductive IsTolerance : Value → Prop
  | bound {v : Value} (h : IsBound v) : IsTolerance v
  | structure {es : Entries} (only : Only ["abs", "rel", "fields"] es)
      (abs : ∀ v, Under es "abs" v → IsBound v)
      (rel : ∀ v, Under es "rel" v → IsBound v)
      (fields : ∀ v, Under es "fields" v → ∃ fs, v = .dict fs)
      (field : ∀ fs k v, Under es "fields" (.dict fs) → (k, v) ∈ fs → IsTolerance v) :
      IsTolerance (.dict es)

/-- Defaults: at most a mode and a tolerance. -/
inductive IsDefaults : Value → Prop
  | mk {es : Entries} (only : Only ["compare", "tolerance"] es)
      (compare : ∀ v, Under es "compare" v → IsMode v)
      (tolerance : ∀ v, Under es "tolerance" v → IsTolerance v) :
      IsDefaults (.dict es)

/-- A test: its identifier, operation, input and expected result, and what it may say beyond. -/
inductive IsTest : Value → Prop
  | mk {es : Entries}
      (only : Only ["id", "kind", "op", "input", "expected", "description", "compare", "tolerance",
        "xfail", "skip", "meta"] es)
      (required : Has es "id" ∧ Has es "op" ∧ Has es "input" ∧ Has es "expected")
      (id : ∀ v, Under es "id" v → IsName v)
      (op : ∀ v, Under es "op" v → IsName v)
      (kind : ∀ v, Under es "kind" v → IsText v)
      (description : ∀ v, Under es "description" v → IsText v)
      (compare : ∀ v, Under es "compare" v → IsMode v)
      (tolerance : ∀ v, Under es "tolerance" v → IsTolerance v)
      (xfail : ∀ v, Under es "xfail" v → IsTruthValue v)
      (skip : ∀ v, Under es "skip" v → IsText v) :
      IsTest (.dict es)

/-- A group: its name, and what it may hold beyond, further groups included. -/
inductive IsGroup : Value → Prop
  | mk {es : Entries} (only : Only ["group", "description", "defaults", "groups", "tests"] es)
      (required : Has es "group")
      (name : ∀ v, Under es "group" v → IsName v)
      (description : ∀ v, Under es "description" v → IsText v)
      (defaults : ∀ v, Under es "defaults" v → IsDefaults v)
      (groups : ∀ v, Under es "groups" v → ∃ xs, v = .list xs)
      (group : ∀ xs x, Under es "groups" (.list xs) → x ∈ xs → IsGroup x)
      (tests : ∀ v, Under es "tests" v → IsListOf IsTest v) :
      IsGroup (.dict es)

/-- A document of the grammar.  Under other names than these it may hold anything. -/
inductive IsSpecification : Value → Prop
  | mk {es : Entries} (required : Has es "spec" ∧ Has es "version" ∧ Has es "groups")
      (name : ∀ v, Under es "spec" v → IsName v)
      (version : ∀ v, Under es "version" v → IsText v)
      (schema : ∀ v, Under es "schema" v → IsText v)
      (capabilities : ∀ v, Under es "capabilities" v → IsListOf IsText v)
      (defaults : ∀ v, Under es "defaults" v → IsDefaults v)
      (groups : ∀ v, Under es "groups" v → IsListOf IsGroup v) :
      IsSpecification (.dict es)

/-! ### Names -/

theorem sameKey_str_iff {k : Value} {name : String} :
    Value.sameKey k (.str name) = true ↔ k.textKey? = some name := by
  have leaf : Value.sameKey k (.str name) = Value.sameLeaf k (.str name) := by
    cases k <;> rfl
  have text : Value.keyClass? (.str name) = some (.text name) := rfl
  rw [leaf, Value.textKey?_eq_some_iff, Value.sameLeaf_iff, text]
  exact and_iff_left_of_imp fun h => by rw [h]; rfl

theorem under_of_field {es : Entries} {name : String} {v : Value} (h : Value.field name es = some v) :
    Under es name v := by
  obtain ⟨k, he, hk⟩ := Value.mem_of_lookup h
  exact ⟨k, he, sameKey_str_iff.1 hk⟩

theorem has_iff {es : Entries} {name : String} :
    Value.hasKey (.str name) es = true ↔ Has es name := by
  rw [Value.hasKey_iff]
  constructor
  · rintro ⟨⟨k, v⟩, he, hk⟩
    exact ⟨v, k, he, sameKey_str_iff.1 hk⟩
  · rintro ⟨v, k, he, hk⟩
    exact ⟨(k, v), he, sameKey_str_iff.2 hk⟩

theorem required_eq_nil_iff {place names : List String} {es : Entries} :
    required place names es = [] ↔ ∀ n ∈ names, Has es n := by
  simp [required, List.filter_eq_nil_iff, has_iff]

theorem unexpected_eq_nil_iff {place names : List String} {es : Entries} :
    unexpected place names es = [] ↔ Only names es := by
  have known (k : Value) : (nameOf k).any names.contains = true ↔ ∃ n ∈ names, k.textKey? = some n := by
    rw [nameOf, Option.any_eq_true]
    constructor
    · rintro ⟨n, hk, hn⟩
      exact ⟨n, List.contains_iff_mem.1 hn, hk⟩
    · rintro ⟨n, hn, hk⟩
      exact ⟨n, hk, List.contains_iff_mem.2 hn⟩
  have empty : unexpected place names es = [] ↔
      ∀ k ∈ es.map Prod.fst, (nameOf k).any names.contains = true := by
    unfold unexpected
    dsimp only
    split
    · rename_i h
      rw [List.isEmpty_iff, List.filter_eq_nil_iff] at h
      simpa using h
    · rename_i h
      rw [List.isEmpty_iff, List.filter_eq_nil_iff] at h
      refine iff_of_false (by simp [problem]) fun h' => h ?_
      simpa using h'
  rw [empty]
  simp only [known]
  constructor
  · intro h k v he
    exact h k (List.mem_map.2 ⟨(k, v), he, rfl⟩)
  · intro h k hk
    obtain ⟨⟨k', v⟩, he, rfl⟩ := List.mem_map.1 hk
    exact h k' v he

/-- The entries of a mapping have no problem exactly if nothing under a name has one there. -/
theorem entries_eq_nil_iff {form : String → List String → Value → List Problem} {place : List String}
    {es : Entries} :
    entries form place es = [] ↔ ∀ n v, Under es n v → form n (inside place n) v = [] := by
  rw [entries, List.flatMap_eq_nil_iff]
  constructor
  · rintro h n v ⟨k, he, hk⟩
    simpa [nameOf, hk] using h (k, v) he
  · rintro h ⟨k, v⟩ he
    cases hk : k.textKey? with
    | none => simp [nameOf, hk]
    | some n => simpa [nameOf, hk] using h n v ⟨k, he, hk⟩

/-! ### Leaves -/

variable {place : List String} {v : Value}

theorem problem_ne_nil (c : Complaint) : problem place c ≠ [] := by simp [problem]

theorem text_eq_nil_iff : text place v = [] ↔ IsText v := by
  unfold text IsText
  cases v.asText? <;> simp [problem]

theorem nonEmptyText_eq_nil_iff : nonEmptyText place v = [] ↔ IsName v := by
  unfold nonEmptyText IsName
  cases v.asText? with
  | none => simp [problem]
  | some s => by_cases h : s = "" <;> simp [problem, h]

theorem truthValue_eq_nil_iff : truthValue place v = [] ↔ IsTruthValue v := by
  cases v with
  | bool b => exact iff_of_true rfl ⟨b, rfl⟩
  | _ => exact iff_of_false (problem_ne_nil _) nofun

theorem mode_eq_nil_iff : mode place v = [] ↔ IsMode v := by
  unfold mode IsMode Mode.ofValue?
  cases hv : v.unwrapped with
  | str s =>
    by_cases hs : s = "strict" ∨ s = "deep" ∨ s = "approx"
    · rcases hs with rfl | rfl | rfl <;> exact iff_of_true rfl (by simp)
    · have none : Mode.all.find? (fun m => m.name == s) = none := by
        rw [List.find?_eq_none]
        intro m _ hm
        rw [beq_iff_eq] at hm
        subst hm
        cases m <;> simp [Mode.name] at hs
      simp only [none]
      exact iff_of_false (problem_ne_nil _) (by simpa using hs)
  | _ => exact iff_of_false (problem_ne_nil _) (by simp)

/-- A list has no problem exactly if no item has one. -/
theorem items_eq_nil_iff_forall {item : List String → Value → List Problem} {form : Value → Prop}
    {xs : List Value} (h : ∀ x ∈ xs, ∀ p, item p x = [] ↔ form x) {i : Nat} :
    items place item i xs = [] ↔ ∀ x ∈ xs, form x := by
  rw [items_eq_nil_iff]
  constructor
  · intro hi x hx
    obtain ⟨j, hj, rfl⟩ := List.mem_iff_getElem.1 hx
    exact (h _ hx _).1 (hi j hj)
  · intro hf j hj
    have hx := List.getElem_mem hj
    exact (h _ hx _).2 (hf _ hx)

theorem listOf_eq_nil_iff {item : List String → Value → List Problem} {form : Value → Prop}
    (h : ∀ p x, item p x = [] ↔ form x) : listOf item place v = [] ↔ IsListOf form v := by
  cases v with
  | list xs =>
    rw [listOf, items_eq_nil_iff_forall fun x _ p => h p x]
    exact ⟨fun hx => ⟨xs, rfl, hx⟩, fun ⟨_, he, hx⟩ => Value.list.inj he ▸ hx⟩
  | _ => exact iff_of_false (problem_ne_nil _) nofun

theorem listOf_text_eq_nil_iff : listOf text place v = [] ↔ IsListOf IsText v :=
  listOf_eq_nil_iff fun _ _ => text_eq_nil_iff

/-! ### Bounds and tolerances -/

theorem belowZero_int_iff {i : Int} : BelowZero (.int i) ↔ i < 0 := by
  constructor
  · rintro (⟨h, hr⟩)
    obtain rfl := Option.some.inj h
    exact_mod_cast hr
  · intro h
    exact .value rfl (by exact_mod_cast h)

theorem belowZero_double_iff {x : Double} : BelowZero (.double x) ↔ belowZero x = true := by
  cases x with
  | nan =>
    refine iff_of_false ?_ nofun
    rintro ⟨⟨⟩, -⟩
  | infinite s =>
    cases s with
    | true => exact iff_of_true .infinite rfl
    | false =>
      refine iff_of_false ?_ nofun
      rintro ⟨⟨⟩, -⟩
  | finite s m =>
    have value : Quantity.rational? (.double (.finite s m)) = some _ := Double.toRat?_finite s m
    have negative : (Double.signedUnits s m : Rat) / Double.oneUnits < 0 ↔ Double.signedUnits s m < 0 := by
      rw [div_lt_iff₀ Double.oneUnits_cast_pos, zero_mul]
      exact_mod_cast Iff.rfl
    have sign : Double.signedUnits s m < 0 ↔ belowZero (.finite s m) = true := by
      have zero := Double.unitsOfRank_eq_zero_iff (a := m)
      cases s <;> simp [Double.signedUnits, belowZero, ← zero]; omega
    rw [← sign, ← negative]
    constructor
    · rintro (⟨h, hr⟩)
      obtain rfl := Option.some.inj (value.symm.trans h)
      exact hr
    · exact .value value

theorem isBound_iff : isBound v = true ↔ IsBound v := by
  have int (i : Int) : decide (0 ≤ i) = true ↔ ¬ BelowZero (.int i) := by
    rw [belowZero_int_iff]
    simp
  have double (x : Double) : (!belowZero x) = true ↔ ¬ BelowZero (.double x) := by
    rw [belowZero_double_iff]
    simp
  unfold isBound IsBound numberOf?
  split <;> simp_all

theorem areFieldEntries_iff {es : Entries} :
    areFieldEntries es = true ↔ ∀ k w, (k, w) ∈ es → isTolerance w = true := by
  have all : areFieldEntries es = es.all fun e => isTolerance e.2 := by
    induction es with
    | nil => rfl
    | cons e es ih => rw [areFieldEntries, ih, List.all_cons]
  rw [all, List.all_eq_true, Prod.forall]

/-- Whether a value fits under its name in a tolerance. -/
def fitsTolerance (name : Option String) (v : Value) : Bool :=
  match name with
  | some "abs" => isBound v
  | some "rel" => isBound v
  | some "fields" => areFields v
  | _ => false

theorem areToleranceEntries_iff {es : Entries} :
    areToleranceEntries es = true ↔ ∀ k w, (k, w) ∈ es → fitsTolerance k.textKey? w = true := by
  have all : areToleranceEntries es = es.all fun e => fitsTolerance e.1.textKey? e.2 := by
    induction es with
    | nil => rfl
    | cons e es ih =>
      rw [areToleranceEntries, ih, List.all_cons]
      rfl
  rw [all, List.all_eq_true, Prod.forall]

/-- A mapping is a tolerance exactly if it has the names of one only, and values that fit there. -/
theorem isTolerance_dict_iff {es : Entries} :
    isTolerance (.dict es) = true ↔ Only ["abs", "rel", "fields"] es ∧
      (∀ w, Under es "abs" w → isBound w = true) ∧ (∀ w, Under es "rel" w → isBound w = true) ∧
      ∀ w, Under es "fields" w → areFields w = true := by
  rw [isTolerance, areToleranceEntries_iff]
  constructor
  · intro h
    refine ⟨?_, ?_, ?_, ?_⟩
    · intro k w he
      have fits := h k w he
      unfold fitsTolerance at fits
      split at fits
      · exact ⟨"abs", by simp, ‹_›⟩
      · exact ⟨"rel", by simp, ‹_›⟩
      · exact ⟨"fields", by simp, ‹_›⟩
      · cases fits
    all_goals
      rintro w ⟨k, he, hk⟩
      have fits := h k w he
      rw [hk] at fits
      exact fits
  · rintro ⟨only, abs, rel, fields⟩ k w he
    obtain ⟨n, hn, hk⟩ := only k w he
    rw [hk]
    simp only [List.mem_cons, List.not_mem_nil, or_false] at hn
    rcases hn with rfl | rfl | rfl
    · exact abs w ⟨k, he, hk⟩
    · exact rel w ⟨k, he, hk⟩
    · exact fields w ⟨k, he, hk⟩

theorem isTolerance_of_not_dict (h : ∀ es, v ≠ .dict es) : isTolerance v = isBound v := by
  cases v with
  | map frozen es =>
    cases frozen with
    | false => exact absurd rfl (h es)
    | true => rfl
  | _ => rfl

/-- What stands under a name is smaller than the mapping. -/
theorem Under.sizeOf_lt {es : Entries} {name : String} {w : Value} (h : Under es name w) :
    sizeOf w < sizeOf (Value.dict es) := by
  obtain ⟨k, he, -⟩ := h
  have := List.sizeOf_lt_of_mem he
  simp only [Prod.mk.sizeOf_spec, Value.map.sizeOf_spec] at this ⊢
  omega

theorem sizeOf_lt_of_field {es fs : Entries} {k w : Value} (h : Under es "fields" (.dict fs))
    (hk : (k, w) ∈ fs) : sizeOf w < sizeOf (Value.dict es) := by
  have outer := h.sizeOf_lt
  have := List.sizeOf_lt_of_mem hk
  simp only [Prod.mk.sizeOf_spec, Value.map.sizeOf_spec] at this outer ⊢
  omega

/-- **A value is a tolerance of the grammar exactly if it is found to be one.** -/
theorem isTolerance_iff (v : Value) : isTolerance v = true ↔ IsTolerance v := by
  by_cases hv : ∃ es, v = .dict es
  · obtain ⟨es, hes⟩ := hv
    have inner {fs : Entries} {k w : Value} (hf : Under es "fields" (.dict fs)) (hk : (k, w) ∈ fs) :
        isTolerance w = true ↔ IsTolerance w := by
      have smaller : sizeOf w < sizeOf v := hes ▸ sizeOf_lt_of_field hf hk
      exact isTolerance_iff w
    rw [hes, isTolerance_dict_iff]
    constructor
    · rintro ⟨only, abs, rel, fields⟩
      refine .structure only (fun w hw => isBound_iff.1 (abs w hw)) (fun w hw => isBound_iff.1 (rel w hw))
        (fun w hw => ?_) (fun fs k w hw hk => ?_)
      · have mapping := fields w hw
        unfold areFields at mapping
        split at mapping
        · exact ⟨_, rfl⟩
        · cases mapping
      · exact (inner hw hk).1 (areFieldEntries_iff.1 (fields _ hw) k w hk)
    · intro h
      cases h with
      | bound h => cases isBound_iff.2 h
      | «structure» only abs rel fields field =>
        refine ⟨only, fun w hw => isBound_iff.2 (abs w hw), fun w hw => isBound_iff.2 (rel w hw),
          fun w hw => ?_⟩
        obtain ⟨fs, rfl⟩ := fields w hw
        exact areFieldEntries_iff.2 fun k w hk => (inner hw hk).2 (field fs k w hw hk)
  · have other : ∀ es, v ≠ .dict es := fun es he => hv ⟨es, he⟩
    rw [isTolerance_of_not_dict other, isBound_iff]
    constructor
    · exact .bound
    · intro h
      cases h with
      | bound h => exact h
      | «structure» _ _ _ _ _ => exact absurd rfl (other _)
termination_by sizeOf v

theorem tolerance_eq_nil_iff_isTolerance : tolerance place v = [] ↔ IsTolerance v :=
  tolerance_eq_nil_iff.trans (isTolerance_iff v)

/-! ### Defaults and tests -/

theorem defaults_eq_nil_iff : defaults place v = [] ↔ IsDefaults v := by
  cases v with
  | map frozen es =>
    cases frozen with
    | false =>
      rw [defaults, List.append_eq_nil_iff, unexpected_eq_nil_iff, entries_eq_nil_iff]
      constructor
      · rintro ⟨only, forms⟩
        exact .mk only (fun w hw => mode_eq_nil_iff.1 (forms "compare" w hw))
          (fun w hw => tolerance_eq_nil_iff_isTolerance.1 (forms "tolerance" w hw))
      · rintro ⟨only, compare, tolerance⟩
        refine ⟨only, fun n w hw => ?_⟩
        unfold defaultsForm
        split
        · exact mode_eq_nil_iff.2 (compare w hw)
        · exact tolerance_eq_nil_iff_isTolerance.2 (tolerance w hw)
        · rfl
    | true => exact iff_of_false (problem_ne_nil _) nofun
  | _ => exact iff_of_false (problem_ne_nil _) nofun

theorem test_eq_nil_iff : test place v = [] ↔ IsTest v := by
  cases v with
  | map frozen es =>
    cases frozen with
    | false =>
      rw [test, List.append_eq_nil_iff, List.append_eq_nil_iff, required_eq_nil_iff,
        unexpected_eq_nil_iff, entries_eq_nil_iff]
      constructor
      · rintro ⟨⟨required, only⟩, forms⟩
        refine .mk only (by simpa using required) ?_ ?_ ?_ ?_ ?_ ?_ ?_ ?_
        · exact fun w hw => nonEmptyText_eq_nil_iff.1 (forms "id" w hw)
        · exact fun w hw => nonEmptyText_eq_nil_iff.1 (forms "op" w hw)
        · exact fun w hw => text_eq_nil_iff.1 (forms "kind" w hw)
        · exact fun w hw => text_eq_nil_iff.1 (forms "description" w hw)
        · exact fun w hw => mode_eq_nil_iff.1 (forms "compare" w hw)
        · exact fun w hw => tolerance_eq_nil_iff_isTolerance.1 (forms "tolerance" w hw)
        · exact fun w hw => truthValue_eq_nil_iff.1 (forms "xfail" w hw)
        · exact fun w hw => text_eq_nil_iff.1 (forms "skip" w hw)
      · rintro ⟨only, required, id, op, kind, description, compare, tolerance, xfail, skip⟩
        refine ⟨⟨by simpa using required, only⟩, fun n w hw => ?_⟩
        unfold testForm
        split
        · exact nonEmptyText_eq_nil_iff.2 (id w hw)
        · exact text_eq_nil_iff.2 (kind w hw)
        · exact nonEmptyText_eq_nil_iff.2 (op w hw)
        · exact text_eq_nil_iff.2 (description w hw)
        · exact mode_eq_nil_iff.2 (compare w hw)
        · exact tolerance_eq_nil_iff_isTolerance.2 (tolerance w hw)
        · exact truthValue_eq_nil_iff.2 (xfail w hw)
        · exact text_eq_nil_iff.2 (skip w hw)
        · rfl
    | true => exact iff_of_false (problem_ne_nil _) nofun
  | _ => exact iff_of_false (problem_ne_nil _) nofun

theorem listOf_test_eq_nil_iff : listOf test place v = [] ↔ IsListOf IsTest v :=
  listOf_eq_nil_iff fun _ _ => test_eq_nil_iff

/-! ### Groups and documents -/

/-- The forms of the entries of a group. -/
def groupForm : String → List String → Value → List Problem
  | "group" => nonEmptyText
  | "description" => text
  | "defaults" => defaults
  | "groups" => groups
  | "tests" => listOf test
  | _ => anything

theorem groupEntries_eq_entries (place : List String) (es : Entries) :
    groupEntries place es = entries groupForm place es := by
  induction es with
  | nil => rfl
  | cons e es ih =>
    rw [groupEntries, ih, entries, entries, List.flatMap_cons]
    congr 1
    cases nameOf e.1 with
    | none => rfl
    | some n =>
      dsimp only
      unfold groupForm
      split <;> simp_all [anything]

theorem groupItems_eq_items (place : List String) (i : Nat) (xs : List Value) :
    groupItems place i xs = items place group i xs := by
  induction xs generalizing i with
  | nil => rfl
  | cons x xs ih => rw [groupItems, ih, items]

theorem groups_eq_listOf (place : List String) (v : Value) : groups place v = listOf group place v := by
  cases v with
  | list xs => exact groupItems_eq_items place 0 xs
  | _ => rfl

/-- A group inside a group is smaller. -/
theorem sizeOf_lt_of_group {es : Entries} {xs : List Value} {x : Value}
    (h : Under es "groups" (.list xs)) (hx : x ∈ xs) : sizeOf x < sizeOf (Value.dict es) := by
  have outer := h.sizeOf_lt
  have := List.sizeOf_lt_of_mem hx
  simp only [Value.list.sizeOf_spec] at outer
  omega

/-- **A value has no problem as a group exactly if it is one.** -/
theorem group_eq_nil_iff (place : List String) (v : Value) : group place v = [] ↔ IsGroup v := by
  cases v with
  | map frozen es =>
    cases frozen with
    | false =>
      have inner {xs : List Value} (p : List String) (h : Under es "groups" (.list xs)) :
          groups p (.list xs) = [] ↔ ∀ x ∈ xs, IsGroup x := by
        rw [groups_eq_listOf, listOf]
        refine items_eq_nil_iff_forall fun x hx p => ?_
        have smaller := sizeOf_lt_of_group h hx
        exact group_eq_nil_iff p x
      rw [group, List.append_eq_nil_iff, List.append_eq_nil_iff, required_eq_nil_iff,
        unexpected_eq_nil_iff, groupEntries_eq_entries, entries_eq_nil_iff]
      constructor
      · rintro ⟨⟨required, only⟩, forms⟩
        refine .mk only (by simpa using required) ?_ ?_ ?_ ?_ ?_ ?_
        · exact fun w hw => nonEmptyText_eq_nil_iff.1 (forms "group" w hw)
        · exact fun w hw => text_eq_nil_iff.1 (forms "description" w hw)
        · exact fun w hw => defaults_eq_nil_iff.1 (forms "defaults" w hw)
        · intro w hw
          have list := forms "groups" w hw
          cases w with
          | list xs => exact ⟨xs, rfl⟩
          | _ => exact absurd list (problem_ne_nil _)
        · exact fun xs x hw => (inner _ hw).1 (forms "groups" _ hw) x
        · exact fun w hw => listOf_test_eq_nil_iff.1 (forms "tests" w hw)
      · rintro ⟨only, required, name, description, defaults, groups, group, tests⟩
        refine ⟨⟨by simpa using required, only⟩, fun n w hw => ?_⟩
        unfold groupForm
        split
        · exact nonEmptyText_eq_nil_iff.2 (name w hw)
        · exact text_eq_nil_iff.2 (description w hw)
        · exact defaults_eq_nil_iff.2 (defaults w hw)
        · obtain ⟨xs, rfl⟩ := groups w hw
          exact (inner _ hw).2 fun x => group xs x hw
        · exact listOf_test_eq_nil_iff.2 (tests w hw)
        · rfl
    | true => exact iff_of_false (problem_ne_nil _) nofun
  | _ => exact iff_of_false (problem_ne_nil _) nofun
termination_by sizeOf v
decreasing_by exact smaller

/-- **A value has no problem as a document exactly if it is one of the grammar.** -/
theorem document_eq_nil_iff : document v = [] ↔ IsSpecification v := by
  cases v with
  | map frozen es =>
    cases frozen with
    | false =>
      rw [document, List.append_eq_nil_iff, required_eq_nil_iff, entries_eq_nil_iff]
      have groups_iff {p : List String} {w : Value} : groups p w = [] ↔ IsListOf IsGroup w := by
        rw [groups_eq_listOf]
        exact listOf_eq_nil_iff group_eq_nil_iff
      constructor
      · rintro ⟨required, forms⟩
        refine .mk (by simpa using required) ?_ ?_ ?_ ?_ ?_ ?_
        · exact fun w hw => nonEmptyText_eq_nil_iff.1 (forms "spec" w hw)
        · exact fun w hw => text_eq_nil_iff.1 (forms "version" w hw)
        · exact fun w hw => text_eq_nil_iff.1 (forms "schema" w hw)
        · exact fun w hw => listOf_text_eq_nil_iff.1 (forms "capabilities" w hw)
        · exact fun w hw => defaults_eq_nil_iff.1 (forms "defaults" w hw)
        · exact fun w hw => groups_iff.1 (forms "groups" w hw)
      · rintro ⟨required, name, version, schema, capabilities, defaults, groups⟩
        refine ⟨by simpa using required, fun n w hw => ?_⟩
        unfold documentForm
        split
        · exact nonEmptyText_eq_nil_iff.2 (name w hw)
        · exact text_eq_nil_iff.2 (version w hw)
        · exact text_eq_nil_iff.2 (schema w hw)
        · exact listOf_text_eq_nil_iff.2 (capabilities w hw)
        · exact defaults_eq_nil_iff.2 (defaults w hw)
        · exact groups_iff.2 (groups w hw)
        · rfl
    | true => exact iff_of_false (problem_ne_nil _) nofun
  | _ => exact iff_of_false (problem_ne_nil _) nofun

end Assay.Grammar
