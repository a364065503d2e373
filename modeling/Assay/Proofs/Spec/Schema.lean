import Assay.Proofs.Spec.Refusal

/-!
# The schema and the grammar

What a schema asks of a value is said keyword by keyword, with the meaning of definitions left open.  A
reading of the definitions gives them the meaning that their schemas have under it; the schema of
specifications has one reading only, and that is the grammar.

* `Schema.Holds` — what a schema asks, by the meaning of definitions;
* `SchemaDocument.Reads` — a reading of the definitions;
* `reads_iff` — under every reading a value fits the schema of specifications exactly if it belongs to the
  grammar;
* `Validator.Follows` — what is asked of a validator from elsewhere;
* `validate_iff` — which documents are accepted with such a validator, and how the others are refused.
-/

namespace Assay

open Grammar (Under Has Only IsText IsName IsTruthValue IsMode IsBound IsListOf IsTolerance IsDefaults IsTest
  IsGroup IsSpecification numberOf?)

/-! ### The meaning of a schema -/

/-- The types of the schema by their names; a boolean is no number. -/
def Value.IsOfType (v : Value) : String → Prop
  | "string" => IsText v
  | "boolean" => IsTruthValue v
  | "number" => ∃ q, numberOf? v = some q
  | "array" => ∃ xs, v = .list xs
  | "object" => ∃ es, v = .dict es
  | _ => False

/-- A number is below an integer; not-a-number is below none. -/
inductive Quantity.IsBelow (bound : Int) (q : Quantity) : Prop
  | value {r : Rat} (h : q.rational? = some r) (hr : r < bound)
  | infinite (h : q = .double (.infinite true))

/-- The names that have a schema of their own among keywords. -/
def Keyword.ownNames : List Keyword → List String
  | [] => []
  | .properties ps :: ks => ps.map Prod.fst ++ ownNames ks
  | _ :: ks => ownNames ks

mutual

/-- What a schema asks of a value, where `refs` is the meaning of the definitions. -/
def Schema.Holds (refs : String → Value → Prop) : Schema → Value → Prop
  | .mk ks, v => Keyword.AllHold refs (Keyword.ownNames ks) ks v

/-- What keywords ask of a value, next to names that have a schema of their own. -/
def Keyword.AllHold (refs : String → Value → Prop) (own : List String) : List Keyword → Value → Prop
  | [], _ => True
  | k :: ks, v => k.Holds refs own v ∧ Keyword.AllHold refs own ks v

/-- What a keyword asks of a value: nothing, if the value is not of the type that the keyword is about. -/
def Keyword.Holds (refs : String → Value → Prop) (own : List String) : Keyword → Value → Prop
  | .type name, v => v.IsOfType name
  | .minLength n, v => ∀ s, v.asText? = some s → n ≤ s.length
  | .minimum bound, v => ∀ q, numberOf? v = some q → ¬ q.IsBelow bound
  | .enum texts, v => ∃ s ∈ texts, v.unwrapped = .str s
  | .required names, v => ∀ es, v = .dict es → ∀ n ∈ names, Has es n
  | .properties ps, v => ∀ es, v = .dict es → Schema.PropertiesHold refs ps es
  | .noOthers, v => ∀ es, v = .dict es → Only own es
  | .others s, v => ∀ es, v = .dict es → ∀ k w, (k, w) ∈ es → (∀ n ∈ own, k.textKey? ≠ some n) → s.Holds refs w
  | .items s, v => ∀ xs, v = .list xs → ∀ x ∈ xs, s.Holds refs x
  | .oneOf ss, v => Schema.OneHolds refs ss v
  | .ref name, v => refs name v

/-- What schemas ask of the values under their names. -/
def Schema.PropertiesHold (refs : String → Value → Prop) : List (String × Schema) → Value.Entries → Prop
  | [], _ => True
  | (n, s) :: ps, es => (∀ w, Under es n w → s.Holds refs w) ∧ Schema.PropertiesHold refs ps es

/-- A value fits exactly one of some schemas. -/
def Schema.OneHolds (refs : String → Value → Prop) : List Schema → Value → Prop
  | [], _ => False
  | s :: ss, v => s.Holds refs v ∧ Schema.NoneHolds refs ss v ∨ ¬ s.Holds refs v ∧ Schema.OneHolds refs ss v

/-- A value fits none of some schemas. -/
def Schema.NoneHolds (refs : String → Value → Prop) : List Schema → Value → Prop
  | [], _ => True
  | s :: ss, v => ¬ s.Holds refs v ∧ Schema.NoneHolds refs ss v

end

attribute [local simp] Value.IsOfType Keyword.ownNames Schema.Holds Keyword.AllHold Keyword.Holds
  Schema.PropertiesHold Schema.OneHolds Schema.NoneHolds

/-- A reading of the definitions: each means what its schema asks, where the others mean what they do. -/
def SchemaDocument.Reads (d : SchemaDocument) (meaning : String → Value → Prop) : Prop :=
  ∀ name s, d.definition? name = some s → ∀ v, meaning name v ↔ s.Holds meaning v

/-! ### Simple schemas -/

namespace Schema

variable {refs : String → Value → Prop} {v : Value}

theorem holds_anything : anything.Holds refs v ↔ True := by
  simp [anything]

theorem holds_reference {name : String} : (reference name).Holds refs v ↔ refs name v := by
  simp [reference]

theorem holds_text : text.Holds refs v ↔ IsText v := by
  simp [text]

theorem holds_truthValue : truthValue.Holds refs v ↔ IsTruthValue v := by
  simp [truthValue]

theorem holds_nonEmptyText : nonEmptyText.Holds refs v ↔ IsName v := by
  simp only [nonEmptyText, Holds, Keyword.AllHold, Keyword.Holds, Value.IsOfType, and_true]
  constructor
  · rintro ⟨⟨s, hs⟩, long⟩
    refine ⟨s, hs, ?_⟩
    rintro rfl
    exact absurd (long "" hs) (by decide)
  · rintro ⟨s, hs, nonempty⟩
    refine ⟨⟨s, hs⟩, fun t ht => ?_⟩
    obtain rfl := Option.some.inj (hs.symm.trans ht)
    exact Nat.one_le_iff_ne_zero.2 (mt String.length_eq_zero_iff.1 nonempty)

theorem isBelow_zero_iff {q : Quantity} : q.IsBelow 0 ↔ Grammar.BelowZero q := by
  constructor
  · rintro (⟨h, hr⟩ | rfl)
    · exact .value h (by exact_mod_cast hr)
    · exact .infinite
  · rintro (⟨h, hr⟩ | _)
    · exact .value h (by exact_mod_cast hr)
    · exact .infinite rfl

theorem holds_bound : bound.Holds refs v ↔ IsBound v := by
  simp only [bound, Holds, Keyword.AllHold, Keyword.Holds, Value.IsOfType, and_true, isBelow_zero_iff]
  constructor
  · rintro ⟨⟨q, hq⟩, above⟩
    exact ⟨q, hq, above q hq⟩
  · rintro ⟨q, hq, above⟩
    refine ⟨⟨q, hq⟩, fun p hp => ?_⟩
    obtain rfl := Option.some.inj (hq.symm.trans hp)
    exact above

theorem holds_mode : mode.Holds refs v ↔ IsMode v := by
  simp [mode, IsMode]

theorem holds_listOf {item : Schema} :
    (listOf item).Holds refs v ↔ ∃ xs, v = .list xs ∧ ∀ x ∈ xs, item.Holds refs x := by
  simp only [listOf, Holds, Keyword.AllHold, Keyword.Holds, Value.IsOfType, and_true]
  constructor
  · rintro ⟨⟨xs, rfl⟩, items⟩
    exact ⟨xs, rfl, items xs rfl⟩
  · rintro ⟨xs, rfl, items⟩
    refine ⟨⟨xs, rfl⟩, fun ys same => ?_⟩
    exact Value.list.inj same ▸ items

/-- What a mapping with a schema for each of its names is asked. -/
theorem holds_mapping {required : List String} {ps : List (String × Schema)} :
    (Schema.mk [.type "object", .required required, .noOthers, .properties ps]).Holds refs v ↔
      ∃ es, v = .dict es ∧ (∀ n ∈ required, Has es n) ∧ Only (ps.map Prod.fst) es ∧
        PropertiesHold refs ps es := by
  simp only [Holds, Keyword.AllHold, Keyword.Holds, Value.IsOfType, Keyword.ownNames, List.append_nil,
    and_true]
  constructor
  · rintro ⟨⟨es, rfl⟩, required, only, properties⟩
    exact ⟨es, rfl, required es rfl, only es rfl, properties es rfl⟩
  · rintro ⟨es, rfl, required, only, properties⟩
    have here {P : Value.Entries → Prop} (h : P es) : ∀ fs, Value.dict es = .dict fs → P fs :=
      fun fs same => (Value.map.inj same).2 ▸ h
    exact ⟨⟨es, rfl⟩, here required, here only, here properties⟩

/-- What a mapping is asked that need not have any name. -/
theorem holds_optional {ps : List (String × Schema)} :
    (Schema.mk [.type "object", .noOthers, .properties ps]).Holds refs v ↔
      ∃ es, v = .dict es ∧ Only (ps.map Prod.fst) es ∧ PropertiesHold refs ps es := by
  have same : (Schema.mk [.type "object", .noOthers, .properties ps]).Holds refs v ↔
      (Schema.mk [.type "object", .required [], .noOthers, .properties ps]).Holds refs v := by
    simp
  rw [same, holds_mapping]
  simp

/-! ### Tolerances -/

/-- The fields of a tolerance. -/
theorem holds_fields :
    (Schema.mk [.type "object", .others (reference "tolerance")]).Holds refs v ↔
      ∃ fs, v = .dict fs ∧ ∀ k w, (k, w) ∈ fs → refs "tolerance" w := by
  simp only [Holds, Keyword.AllHold, Keyword.Holds, Value.IsOfType, Keyword.ownNames, and_true,
    List.not_mem_nil, false_implies, implies_true, true_implies, holds_reference]
  constructor
  · rintro ⟨⟨fs, rfl⟩, fields⟩
    exact ⟨fs, rfl, fields fs rfl⟩
  · rintro ⟨fs, rfl, fields⟩
    exact ⟨⟨fs, rfl⟩, fun es same => (Value.map.inj same).2 ▸ fields⟩

theorem holds_structuredTolerance : structuredTolerance.Holds refs v ↔
    ∃ es, v = .dict es ∧ Only ["abs", "rel", "fields"] es ∧ (∀ w, Under es "abs" w → IsBound w) ∧
      (∀ w, Under es "rel" w → IsBound w) ∧
      ∀ w, Under es "fields" w → ∃ fs, w = .dict fs ∧ ∀ k u, (k, u) ∈ fs → refs "tolerance" u := by
  rw [structuredTolerance, holds_optional]
  simp only [PropertiesHold, holds_bound, holds_fields, List.map_cons, List.map_nil, and_true]

/-- A bound is no mapping, so that the two alternatives exclude each other. -/
theorem holds_tolerance : tolerance.Holds refs v ↔ IsBound v ∨ structuredTolerance.Holds refs v := by
  have exclusive : IsBound v → ¬ structuredTolerance.Holds refs v := by
    rintro ⟨q, hq, -⟩ fits
    obtain ⟨es, rfl, -⟩ := holds_structuredTolerance.1 fits
    cases hq
  simp only [tolerance, Holds, Keyword.AllHold, Keyword.Holds, OneHolds, NoneHolds, holds_bound, and_true,
    and_false, or_false]
  by_cases fits : IsBound v
  · simp [fits, exclusive fits]
  · simp [fits]

/-- **A value fits the schema of tolerances exactly if it is one**, where the parts of a mapping do. -/
theorem holds_tolerance_iff
    (inner : ∀ fs k u es, v = .dict es → Under es "fields" (.dict fs) → (k, u) ∈ fs →
      (refs "tolerance" u ↔ IsTolerance u)) : tolerance.Holds refs v ↔ IsTolerance v := by
  rw [holds_tolerance, holds_structuredTolerance]
  constructor
  · rintro (fits | ⟨es, rfl, only, abs, rel, fields⟩)
    · exact .bound fits
    · refine .structure only abs rel (fun w hw => ?_) (fun fs k u hw hk => ?_)
      · obtain ⟨fs, rfl, -⟩ := fields w hw
        exact ⟨fs, rfl⟩
      · obtain ⟨_, same, fits⟩ := fields _ hw
        obtain ⟨-, rfl⟩ := Value.map.inj same
        exact (inner fs k u es rfl hw hk).1 (fits k u hk)
  · intro h
    cases h with
    | bound h => exact Or.inl h
    | @«structure» es only abs rel fields field =>
      refine Or.inr ⟨es, rfl, only, abs, rel, fun w hw => ?_⟩
      obtain ⟨fs, rfl⟩ := fields w hw
      exact ⟨fs, rfl, fun k u hk => (inner fs k u es rfl hw hk).2 (field fs k u hw hk)⟩

/-! ### Defaults, tests and groups -/

section

variable (hc : ∀ w, refs "compare" w ↔ IsMode w) (ht : ∀ w, refs "tolerance" w ↔ IsTolerance w)

include hc ht

theorem holds_defaults_iff : defaults.Holds refs v ↔ IsDefaults v := by
  rw [defaults, holds_optional]
  simp only [PropertiesHold, holds_reference, hc, ht, List.map_cons, List.map_nil, and_true]
  constructor
  · rintro ⟨es, rfl, only, compare, tolerance⟩
    exact .mk only compare tolerance
  · rintro ⟨only, compare, tolerance⟩
    exact ⟨_, rfl, only, compare, tolerance⟩

theorem holds_test_iff : test.Holds refs v ↔ IsTest v := by
  rw [test, holds_mapping]
  simp only [PropertiesHold, holds_reference, holds_nonEmptyText, holds_text, holds_anything,
    holds_truthValue, hc, ht, List.map_cons, List.map_nil, and_true, implies_true, true_and]
  constructor
  · rintro ⟨es, rfl, required, only, id, kind, op, description, compare, tolerance, xfail, skip⟩
    exact .mk only (by simpa using required) id op kind description compare tolerance xfail skip
  · rintro ⟨only, required, id, op, kind, description, compare, tolerance, xfail, skip⟩
    exact ⟨_, rfl, by simpa using required, only, id, kind, op, description, compare, tolerance, xfail, skip⟩

end

/-- **A value fits the schema of groups exactly if it is one**, where the groups inside it do. -/
theorem holds_group_iff (hd : ∀ w, refs "defaults" w ↔ IsDefaults w) (ht : ∀ w, refs "test" w ↔ IsTest w)
    (inner : ∀ es xs x, v = .dict es → Under es "groups" (.list xs) → x ∈ xs →
      (refs "group" x ↔ IsGroup x)) : group.Holds refs v ↔ IsGroup v := by
  rw [group, holds_mapping]
  simp only [PropertiesHold, holds_reference, holds_nonEmptyText, holds_text, holds_listOf, hd, ht,
    List.map_cons, List.map_nil, and_true]
  constructor
  · rintro ⟨es, rfl, required, only, name, description, defaults, groups, tests⟩
    refine .mk only (required "group" (by simp)) name description defaults (fun w hw => ?_)
      (fun xs x hw hx => ?_) tests
    · obtain ⟨xs, rfl, -⟩ := groups w hw
      exact ⟨xs, rfl⟩
    · obtain ⟨_, same, each⟩ := groups _ hw
      obtain rfl := Value.list.inj same
      exact (inner es xs x rfl hw hx).1 (each x hx)
  · rintro ⟨only, required, name, description, defaults, groups, group, tests⟩
    refine ⟨_, rfl, by simpa using required, only, name, description, defaults, fun w hw => ?_, tests⟩
    obtain ⟨xs, rfl⟩ := groups w hw
    exact ⟨xs, rfl, fun x hx => (inner _ xs x rfl hw hx).2 (group xs x hw hx)⟩

/-- A value fits the schema of documents exactly if it is one of the grammar. -/
theorem holds_document_iff (hd : ∀ w, refs "defaults" w ↔ IsDefaults w)
    (hg : ∀ w, refs "group" w ↔ IsGroup w) : document.Holds refs v ↔ IsSpecification v := by
  simp only [document, Holds, Keyword.AllHold, Keyword.Holds, Value.IsOfType, PropertiesHold,
    holds_reference, holds_nonEmptyText, holds_text, holds_listOf, hd, hg, and_true]
  constructor
  · rintro ⟨⟨es, rfl⟩, required, properties⟩
    obtain ⟨name, version, schema, capabilities, defaults, groups⟩ := properties es rfl
    exact .mk (by simpa using required es rfl) name version schema capabilities defaults groups
  · rintro ⟨required, name, version, schema, capabilities, defaults, groups⟩
    refine ⟨⟨_, rfl⟩, ?_, ?_⟩
    · rintro es same
      obtain ⟨-, rfl⟩ := Value.map.inj same
      simpa using required
    · rintro es same
      obtain ⟨-, rfl⟩ := Value.map.inj same
      exact ⟨name, version, schema, capabilities, defaults, groups⟩

/-! ### Readings -/

section

variable {meaning : String → Value → Prop} (h : specification.Reads meaning)

include h

theorem reads_compare_iff (v : Value) : meaning "compare" v ↔ IsMode v :=
  (h "compare" mode rfl v).trans holds_mode

theorem reads_tolerance_iff (v : Value) : meaning "tolerance" v ↔ IsTolerance v := by
  rw [h "tolerance" tolerance rfl v]
  refine holds_tolerance_iff fun fs k u es hv hw hk => ?_
  have smaller : sizeOf u < sizeOf v := hv ▸ Grammar.sizeOf_lt_of_field hw hk
  exact reads_tolerance_iff u
termination_by sizeOf v

theorem reads_defaults_iff (v : Value) : meaning "defaults" v ↔ IsDefaults v :=
  (h "defaults" defaults rfl v).trans (holds_defaults_iff (reads_compare_iff h) (reads_tolerance_iff h))

theorem reads_test_iff (v : Value) : meaning "test" v ↔ IsTest v :=
  (h "test" test rfl v).trans (holds_test_iff (reads_compare_iff h) (reads_tolerance_iff h))

theorem reads_group_iff (v : Value) : meaning "group" v ↔ IsGroup v := by
  rw [h "group" group rfl v]
  refine holds_group_iff (reads_defaults_iff h) (reads_test_iff h) fun es xs x hv hw hx => ?_
  have smaller : sizeOf x < sizeOf v := hv ▸ Grammar.sizeOf_lt_of_group hw hx
  exact reads_group_iff x
termination_by sizeOf v

/-- **Under every reading of the definitions** a value fits the schema of specifications exactly if it
belongs to the grammar. -/
theorem reads_iff (v : Value) : specification.root.Holds meaning v ↔ IsSpecification v :=
  holds_document_iff (reads_defaults_iff h) (reads_group_iff h)

end

/-- What the definitions mean by the grammar. -/
def grammarMeaning : String → Value → Prop
  | "compare" => IsMode
  | "tolerance" => IsTolerance
  | "defaults" => IsDefaults
  | "group" => IsGroup
  | "test" => IsTest
  | _ => fun _ => False

/-- **The grammar is a reading of the definitions.** -/
theorem reads_grammarMeaning : specification.Reads grammarMeaning := by
  intro name s found v
  obtain ⟨e, he, rfl⟩ := Option.map_eq_some_iff.1 found
  have named : e.1 = name := by simpa using List.find?_some he
  have member := List.mem_of_find?_eq_some he
  subst named
  simp only [specification, List.mem_cons, List.not_mem_nil, or_false] at member
  rcases member with rfl | rfl | rfl | rfl | rfl
  · exact holds_mode.symm
  · exact (holds_tolerance_iff fun _ _ _ _ _ _ _ => Iff.rfl).symm
  · exact (holds_defaults_iff (fun _ => Iff.rfl) fun _ => Iff.rfl).symm
  · exact (holds_group_iff (fun _ => Iff.rfl) (fun _ => Iff.rfl) fun _ _ _ _ _ _ => Iff.rfl).symm
  · exact (holds_test_iff (fun _ => Iff.rfl) fun _ => Iff.rfl).symm

end Schema

/-! ### Validators -/

/-- What is asked of a validator: by some reading of the definitions it tells nothing exactly of the values
that fit the schema.  What it tells shows parts of the value, so that a long integer in the value may make it
fail; nothing else does. -/
structure Validator.Follows (validator : Validator) (d : SchemaDocument) : Prop where
  tells : ∃ meaning, d.Reads meaning ∧
    ∀ v told, validator d v = .ok told → (told = [] ↔ d.root.Holds meaning v)
  fails : ∀ v f, validator d v = .error f → f = .longInteger ∧ ¬ v.Writable

/-- The validator of this library follows the schema of specifications. -/
theorem Grammar.validator_follows : Grammar.validator.Follows Schema.specification where
  tells := by
    refine ⟨Schema.grammarMeaning, Schema.reads_grammarMeaning, fun v told h => ?_⟩
    exact (validator_eq_nil_iff h).trans (Schema.reads_iff Schema.reads_grammarMeaning v).symm
  fails := by
    intro v f h
    obtain ⟨long, fault⟩ := (validator_succeedsIff _ v).eq_error_iff.1 h
    refine ⟨fault, fun writable => long fun x hx i hi => ?_⟩
    exact writable i (hi.trans (inside_of_mem_written hx))

namespace Document

/-- **Which documents are accepted.**  Whatever validator follows the schema: what it accepts belongs to the
grammar, and what it refuses does not.  A document without long integers is accepted exactly if it belongs to
the grammar, and refused with a message for each problem otherwise; a long integer in the document is all
that may stop the validator. -/
theorem validate_iff {validator : Validator} (h : validator.Follows Schema.specification) (v : Value) :
    (validateBy validator v = .ok () → IsSpecification v) ∧
      (∀ f, validateBy validator v = .error f →
        (∃ ms, ms ≠ [] ∧ f = .invalid ms ∧ ¬ IsSpecification v) ∨ f = .fault .longInteger ∧ ¬ v.Writable) ∧
      (v.Writable → (validateBy validator v = .ok () ↔ IsSpecification v) ∧
        (¬ IsSpecification v → ∃ ms, ms ≠ [] ∧ validateBy validator v = .error (.invalid ms))) := by
  obtain ⟨⟨meaning, reads, tells⟩, fails⟩ := h
  cases answer : validator Schema.specification v with
  | error f =>
    obtain ⟨rfl, long⟩ := fails v f answer
    have stopped := validateBy_of_error answer
    refine ⟨fun valid => ?_, fun g hg => ?_, fun writable => absurd writable long⟩
    · cases stopped.symm.trans valid
    · cases stopped.symm.trans hg
      exact Or.inr ⟨rfl, long⟩
  | ok told =>
    have none := (tells v told answer).trans (Schema.reads_iff reads v)
    by_cases belongs : IsSpecification v
    · obtain rfl := none.2 belongs
      have valid := validateBy_of_nil answer
      refine ⟨fun _ => belongs, fun f hf => ?_, fun _ => ⟨iff_of_true valid belongs, absurd belongs⟩⟩
      cases valid.symm.trans hf
    · obtain ⟨ms, some, -, refused⟩ := validateBy_of_ne_nil answer (mt none.1 belongs)
      have invalid : validateBy validator v ≠ .ok () := by simp [refused]
      refine ⟨fun valid => absurd valid invalid, fun f hf => ?_,
        fun _ => ⟨iff_of_false invalid belongs, fun _ => ⟨ms, some, refused⟩⟩⟩
      cases refused.symm.trans hf
      exact Or.inl ⟨ms, some, rfl, belongs⟩

/-- A document with nothing but what it must have. -/
def leastDocument : Value :=
  .dict [(.str "spec", .str "s"), (.str "version", .str "1"), (.str "groups", .list [])]

/-- It is accepted, and an empty mapping is refused. -/
theorem validate_iff_least :
    Grammar.validator.Follows Schema.specification ∧
      (leastDocument.Writable ∧ validateBy Grammar.validator leastDocument = .ok () ∧
        IsSpecification leastDocument) ∧
      (Value.dict []).Writable ∧ ¬ IsSpecification (.dict []) ∧
        ∃ ms, ms ≠ [] ∧ validateBy Grammar.validator (.dict []) = .error (.invalid ms) := by
  have follows := Grammar.validator_follows
  have short : leastDocument.Writable := (Value.literal_succeedsIff _).isOk_iff.1 ⟨_, rfl⟩
  have short' : (Value.dict []).Writable := (Value.literal_succeedsIff _).isOk_iff.1 ⟨_, rfl⟩
  have belongs : IsSpecification leastDocument := Grammar.document_eq_nil_iff.1 rfl
  have outside : ¬ IsSpecification (.dict []) := mt Grammar.document_eq_nil_iff.2 (by simp [Grammar.document,
    Grammar.required, Value.hasKey])
  have accepted := ((validate_iff follows leastDocument).2.2 short).1.2 belongs
  have refused := ((validate_iff follows (.dict [])).2.2 short').2 outside
  exact ⟨follows, ⟨short, accepted, belongs⟩, short', outside, refused⟩

/-- A document whose tolerance is an integer that is too long to be written. -/
def longTolerance : Value :=
  .dict [(.str "spec", .str "s"), (.str "version", .str "1"),
    (.str "defaults", .dict [(.str "tolerance", .int digitBound)]), (.str "groups", .list [])]

/-- **A document of the grammar is not accepted if a tolerance is too long to be written**: it is held against
the schema of structures, and the message that it does not fit that one is made, though nobody is told. -/
theorem validate_longTolerance :
    IsSpecification longTolerance ∧
      validateBy Grammar.validator longTolerance = .error (.fault .longInteger) := by
  have belongs : IsSpecification longTolerance := Grammar.document_eq_nil_iff.1 (by decide +kernel)
  have long : ¬ (Value.int digitBound).Writable := by
    rw [← (Value.literal_succeedsIff _).isOk_iff]
    rintro ⟨t, ht⟩
    have fault : (Value.int digitBound).literal = .error .longInteger := by
      rw [Value.literal, integerText, Int.natAbs_natCast, if_neg (Nat.lt_irrefl _)]
    cases fault.symm.trans ht
  have member : Value.int digitBound ∈ Grammar.tolerances longTolerance := List.mem_singleton.2 rfl
  rcases validate_cases longTolerance with ⟨short, -⟩ | ⟨-, outside, -⟩ | ⟨-, fault⟩
  · exact absurd (short _ (List.mem_append_left _ member)) long
  · exact absurd belongs outside
  · exact ⟨belongs, fault⟩

end Document

end Assay
