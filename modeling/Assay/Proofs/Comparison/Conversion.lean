import Assay.Comparison.Raw
import Assay.Proofs.Comparison.Stepwise
import Assay.Proofs.Spec.Sound

/-!
# Conversion of tolerances

What conversion makes is settled: it cannot be told from what conversion makes of it in turn.  The fields
of a structure come from the fields that were given, one for each text of a key, and the last one that was
given wins.

* `Tolerance.Built` — null, a bound, the mark of absence, or a structure with one field for each name;
* `Tolerance.Built.again`, `Tolerance.build_of_built` — converting and building once more change nothing;
* `Raw.built_of_convert` — whatever is converted is built;
* `Raw.exists_fieldRead` — the fields of a structure in terms of those that were given;
* `Raw.convert_ofValue` — the reader of documents, which converts once, and conversion agree on values;
* `Raw.convert_ofTolerance` — what is built is converted to itself.
-/

namespace Assay

namespace Tolerance

/-! ### Fields by name -/

section Fields

variable {name n : String} {t : Tolerance} {fs : List (String × Tolerance)}

/-- The tolerance that stands under a name. -/
def fieldNamed? (name : String) (fs : List (String × Tolerance)) : Option Tolerance :=
  (fs.find? fun f => f.1 == name).map Prod.snd

theorem forField_structured (abs rel : Option Bound) :
    forField name (.structured abs rel fs) = (fieldNamed? name fs).getD (.structured abs rel fs) := rfl

theorem fieldNamed?_cons (u : Tolerance) :
    fieldNamed? name ((n, u) :: fs) = if n = name then some u else fieldNamed? name fs := by
  by_cases same : n = name
  · simp [fieldNamed?, same]
  · simp [fieldNamed?, same, List.find?_cons_of_neg]

theorem fieldNamed?_eq_none (h : ∀ f ∈ fs, f.1 ≠ name) : fieldNamed? name fs = none := by
  rw [fieldNamed?, Option.map_eq_none_iff, List.find?_eq_none]
  simpa using h

theorem fieldNamed?_of_firstAt (h : FirstAt (fun f => f.1 ≠ name) (name, t) fs) :
    fieldNamed? name fs = some t := by
  obtain ⟨before, after, rfl, others⟩ := h
  have none : before.find? (fun f => f.1 == name) = none := by
    rw [List.find?_eq_none]
    simpa using others
  rw [fieldNamed?, List.find?_append, none]
  simp

theorem fieldNamed?_insertField :
    fieldNamed? name (insertField n t fs) = if n = name then some t else fieldNamed? name fs := by
  induction fs with
  | nil => exact fieldNamed?_cons t
  | cons f fs ih =>
    obtain ⟨m, u⟩ := f
    rw [insertField]
    by_cases same : m = n
    · rw [if_pos same, same, fieldNamed?_cons, fieldNamed?_cons]
      split <;> rfl
    · rw [if_neg same, fieldNamed?_cons, fieldNamed?_cons, ih]
      by_cases here : m = name
      · subst here
        rw [if_pos rfl, if_pos rfl, if_neg (Ne.symm same)]
      · rw [if_neg here, if_neg here]

theorem insertField_of_not_mem (h : n ∉ fs.map Prod.fst) : insertField n t fs = fs ++ [(n, t)] := by
  induction fs with
  | nil => rfl
  | cons f fs ih =>
    obtain ⟨m, u⟩ := f
    rw [List.map_cons, List.mem_cons, not_or] at h
    rw [insertField, if_neg (Ne.symm h.1), ih h.2, List.cons_append]

/-- A present name stays the only one of its kind, a new one goes last. -/
theorem names_insertField :
    (insertField n t fs).map Prod.fst =
      if n ∈ fs.map Prod.fst then fs.map Prod.fst else fs.map Prod.fst ++ [n] := by
  induction fs with
  | nil => rfl
  | cons f fs ih =>
    obtain ⟨m, u⟩ := f
    rw [insertField]
    by_cases same : m = n
    · simp [same]
    · rw [if_neg same, List.map_cons, List.map_cons, ih]
      by_cases later : n ∈ fs.map Prod.fst
      · rw [if_pos later, if_pos (List.mem_cons_of_mem _ later)]
      · rw [if_neg later, if_neg (by simpa [Ne.symm same] using later), List.cons_append]

theorem nodup_ofFields (fs : List (String × Tolerance)) : ((ofFields fs).map Prod.fst).Nodup := by
  induction fs using List.reverseRecOn with
  | nil => exact List.nodup_nil
  | append_singleton fs f ih =>
    rw [ofFields_append_singleton, names_insertField]
    split
    · exact ih
    · rename_i new
      rw [← List.concat_eq_append]
      exact ih.concat new

theorem mem_names_ofFields : name ∈ (ofFields fs).map Prod.fst ↔ name ∈ fs.map Prod.fst := by
  induction fs using List.reverseRecOn with
  | nil => rfl
  | append_singleton fs f ih =>
    rw [ofFields_append_singleton, names_insertField, List.map_append, List.mem_append, ← ih]
    split
    · rename_i old
      constructor
      · exact Or.inl
      · rintro (h | h)
        · exact h
        · obtain rfl : name = f.1 := by simpa using h
          exact old
    · rw [List.mem_append, List.map_singleton]

/-- Fields with names of their own are left as they are. -/
theorem ofFields_of_nodup (h : (fs.map Prod.fst).Nodup) : ofFields fs = fs := by
  induction fs using List.reverseRecOn with
  | nil => rfl
  | append_singleton fs f ih =>
    rw [List.map_append, List.map_singleton, ← List.concat_eq_append, List.nodup_concat] at h
    rw [ofFields_append_singleton, ih h.2, insertField_of_not_mem h.1]

/-- **Of the fields of one name the last one wins.** -/
theorem fieldNamed?_ofFields : fieldNamed? name (ofFields fs) = fieldNamed? name fs.reverse := by
  induction fs using List.reverseRecOn with
  | nil => rfl
  | append_singleton fs f ih =>
    rw [ofFields_append_singleton, fieldNamed?_insertField, ih, List.reverse_append, List.reverse_singleton,
      List.singleton_append, fieldNamed?_cons]

end Fields

/-! ### What is built -/

/-- What conversion makes: null, a bound, the mark of absence, or a structure whose fields are built, each
under a name of its own. -/
inductive Built : Tolerance → Prop
  | null : Built (.plain .null)
  | bound (x : Double) : Built (.plain (.float x))
  | absence : Built absence
  | structured {abs rel : Option Bound} {fields : List (String × Tolerance)}
      (names : (fields.map Prod.fst).Nodup) (each : ∀ f ∈ fields, Built f.2) :
      Built (.structured abs rel fields)

/-- **Converting once more changes nothing.** -/
theorem Built.again {t : Tolerance} (h : t.Built) : t.again = .ok t := by
  cases h with
  | null => rfl
  | bound x => rfl
  | absence => rfl
  | structured => rfl

theorem fieldsAgain_of_built {fs : List (String × Tolerance)} (h : ∀ f ∈ fs, f.2.Built) :
    fieldsAgain fs = .ok fs := by
  induction fs with
  | nil => rfl
  | cons f fs ih =>
    rw [List.forall_mem_cons] at h
    rw [fieldsAgain, h.1.again, ih h.2]
    rfl

/-- **Building once more changes nothing.** -/
theorem build_of_built {abs rel : Option Bound} {fields : List (String × Tolerance)}
    (h : Built (.structured abs rel fields)) : build abs rel fields = .ok (.structured abs rel fields) := by
  cases h with
  | structured names each =>
    have same : build abs rel fields = .ok (.structured abs rel (ofFields fields)) := by
      rw [build, fieldsAgain_of_built each]
      rfl
    rw [same, ofFields_of_nodup names]

/-- Fields that are built make a structure that is. -/
theorem built_ofFields {fs : List (String × Tolerance)} (h : ∀ f ∈ fs, f.2.Built)
    (abs rel : Option Bound) : Built (.structured abs rel (ofFields fs)) := by
  refine .structured (nodup_ofFields fs) fun f hf => ?_
  obtain ⟨g, hg, same⟩ := mem_ofFields hf
  exact same ▸ h g hg

/-- What is read from a value that is no mapping is plain. -/
theorem plain_of_ofValue {v : Value} {t : Tolerance} (hv : ∀ frozen es, v ≠ .map frozen es)
    (h : ofValue v = .ok t) : t.Built ∧ ∃ b, t = .plain b := by
  cases v with
  | map frozen es => exact absurd rfl (hv frozen es)
  | absent =>
    obtain rfl := Except.ok.inj h
    exact ⟨.absence, _, rfl⟩
  | null =>
    obtain rfl := Except.ok.inj h
    exact ⟨.null, _, rfl⟩
  | int i =>
    obtain ⟨x, -, ⟨⟩⟩ := bind_eq_ok_iff.1 h
    exact ⟨.bound x, _, rfl⟩
  | float x =>
    obtain rfl := Except.ok.inj h
    exact ⟨.bound x, _, rfl⟩
  | scalar e item =>
    obtain ⟨x, -, rfl⟩ := ofValue_scalar_eq_ok h
    exact ⟨.bound x, _, rfl⟩
  | _ =>
    -- Every other value is refused, once it has been written out.
    obtain ⟨_, -, ⟨⟩⟩ := bind_eq_ok_iff.1 h

/-- What is no mapping has no fields. -/
theorem eq_nil_of_fieldsOf {v : Value} {fs : List (String × Tolerance)}
    (hv : ∀ frozen es, v ≠ .map frozen es) (h : fieldsOf v = .ok fs) : fs = [] := by
  rw [fieldsOf] at h
  · split at h
    · cases h
    · exact (Except.ok.inj h).symm
  · exact hv

end Tolerance

namespace Raw

/-! ### Fields that are given -/

theorem entries_value {v : Value} (hv : ∀ frozen es, v ≠ .map frozen es) : entries (.value v) = [] := by
  cases v with
  | map frozen es => exact absurd rfl (hv frozen es)
  | _ => rfl

/-- A field is converted under the text of its key. -/
def FieldRead (e : Value × Raw) (f : String × Tolerance) : Prop :=
  e.1.text = .ok f.1 ∧ e.2.convert = .ok f.2

theorem convertFields_eq_ok_iff {es : List (Value × Raw)} {fs : List (String × Tolerance)} :
    convertFields es = .ok fs ↔ List.Forall₂ FieldRead es fs := by
  induction es generalizing fs with
  | nil =>
    rw [List.forall₂_nil_left_iff]
    exact ⟨fun h => (Except.ok.inj h).symm, fun h => congrArg _ h.symm⟩
  | cons e es ih =>
    obtain ⟨k, r⟩ := e
    rw [convertFields]
    constructor
    · intro h
      obtain ⟨name, hname, h⟩ := bind_eq_ok_iff.1 h
      obtain ⟨t, ht, h⟩ := bind_eq_ok_iff.1 h
      obtain ⟨rest, hrest, ⟨⟩⟩ := bind_eq_ok_iff.1 h
      exact .cons ⟨hname, ht⟩ (ih.1 hrest)
    · intro h
      cases h with
      | cons hf hrest => rw [hf.1, hf.2, ih.2 hrest]; rfl

/-- The fields of a value are read like those that are given one by one. -/
theorem readFields_eq (es : Value.Entries) :
    Tolerance.readFields es = convertFields (es.map fun e => (e.1, .value e.2)) := by
  induction es with
  | nil => rfl
  | cons e es ih =>
    obtain ⟨k, v⟩ := e
    rw [Tolerance.readFields, List.map_cons, convertFields, ih]
    rfl

theorem forall₂_of_fieldsOf {r : Raw} {fs : List (String × Tolerance)} (h : fieldsOf r = .ok fs) :
    List.Forall₂ FieldRead r.entries fs := by
  cases r with
  | absent =>
    obtain rfl := Except.ok.inj h
    exact .nil
  | made abs rel fields => cases h
  | mapping frozen es => exact convertFields_eq_ok_iff.1 h
  | value v =>
    by_cases hv : ∃ frozen es, v = .map frozen es
    · obtain ⟨frozen, es, rfl⟩ := hv
      exact convertFields_eq_ok_iff.1 (readFields_eq es ▸ h)
    · have other : ∀ frozen es, v ≠ .map frozen es := fun frozen es hm => hv ⟨frozen, es, hm⟩
      obtain rfl := Tolerance.eq_nil_of_fieldsOf other h
      rw [entries_value other]
      exact .nil

theorem fieldsIn_eq (es : List (Value × Raw)) :
    fieldsIn es = (under "fields" es).elim (.ok []) fieldsOf := by
  induction es with
  | nil => rfl
  | cons e es ih =>
    obtain ⟨k, r⟩ := e
    rw [fieldsIn, under]
    split
    · rfl
    · exact ih

theorem forall₂_of_fieldsIn {es : List (Value × Raw)} {fs : List (String × Tolerance)}
    (h : fieldsIn es = .ok fs) : List.Forall₂ FieldRead (((under "fields" es).map entries).getD []) fs := by
  rw [fieldsIn_eq] at h
  cases hr : under "fields" es with
  | none =>
    rw [hr] at h
    obtain rfl := Except.ok.inj h
    exact .nil
  | some r =>
    rw [hr] at h
    exact forall₂_of_fieldsOf h

/-- Under a name stands what is made of the value that stands there. -/
theorem under_map (g : Value → Raw) (name : String) (es : Value.Entries) :
    under name (es.map fun e => (e.1, g e.2)) = (Value.field name es).map g := by
  induction es with
  | nil => rfl
  | cons e es ih =>
    obtain ⟨k, v⟩ := e
    rw [List.map_cons, under, Value.field, Value.lookup]
    split
    · rfl
    · exact ih

theorem fieldsIn_map_value (es : Value.Entries) :
    fieldsIn (es.map fun e => (e.1, .value e.2)) = Tolerance.fieldsIn es := by
  rw [fieldsIn_eq, under_map, Grammar.fieldsIn_eq]
  cases Value.field "fields" es with
  | none => rfl
  | some v => rfl

/-! ### What is converted -/

/-- Conversion makes a plain tolerance, or a structure of the fields that are given. -/
theorem convert_cases {raw : Raw} {t : Tolerance} (h : raw.convert = .ok t) :
    (t.Built ∧ ∃ b, t = .plain b) ∨
      ∃ abs rel fs, List.Forall₂ FieldRead raw.fields fs ∧
        ((∀ f ∈ fs, f.2.Built) → t = .structured abs rel (Tolerance.ofFields fs)) := by
  cases raw with
  | absent =>
    obtain rfl := Except.ok.inj h
    exact Or.inl ⟨.absence, _, rfl⟩
  | value v =>
    by_cases hv : ∃ frozen es, v = .map frozen es
    · obtain ⟨frozen, es, rfl⟩ := hv
      rw [convert_value, Tolerance.ofValue] at h
      obtain ⟨fs, hfs, h⟩ := bind_eq_ok_iff.1 h
      obtain ⟨abs, -, h⟩ := bind_eq_ok_iff.1 h
      obtain ⟨rel, -, ⟨⟩⟩ := bind_eq_ok_iff.1 h
      rw [← fieldsIn_map_value] at hfs
      exact Or.inr ⟨abs, rel, fs, forall₂_of_fieldsIn hfs, fun _ => rfl⟩
    · exact Or.inl (Tolerance.plain_of_ofValue (fun frozen es hm => hv ⟨frozen, es, hm⟩) h)
  | made abs rel es =>
    rw [convert] at h
    obtain ⟨fs, hfs, ⟨⟩⟩ := bind_eq_ok_iff.1 h
    exact Or.inr ⟨abs, rel, fs, convertFields_eq_ok_iff.1 hfs, fun _ => rfl⟩
  | mapping frozen es =>
    rw [convert] at h
    obtain ⟨fs, hfs, h⟩ := bind_eq_ok_iff.1 h
    obtain ⟨abs, -, h⟩ := bind_eq_ok_iff.1 h
    obtain ⟨rel, -, h⟩ := bind_eq_ok_iff.1 h
    refine Or.inr ⟨abs, rel, fs, forall₂_of_fieldsIn hfs, fun each => ?_⟩
    rw [Tolerance.build_of_built (Tolerance.built_ofFields each abs rel)] at h
    exact (Except.ok.inj h).symm

theorem exists_mem_of_under {name : String} {es : List (Value × Raw)} {r : Raw}
    (h : under name es = some r) : ∃ k, (k, r) ∈ es := by
  induction es with
  | nil => cases h
  | cons e es ih =>
    obtain ⟨k, s⟩ := e
    rw [under] at h
    split at h
    · obtain rfl := Option.some.inj h
      exact ⟨k, List.mem_cons_self⟩
    · obtain ⟨l, hl⟩ := ih h
      exact ⟨l, List.mem_cons_of_mem _ hl⟩

theorem sizeOf_lt_of_mem_entries {raw : Raw} {e : Value × Raw} (h : e ∈ raw.entries) :
    sizeOf e.2 < sizeOf raw := by
  obtain ⟨k, r⟩ := e
  cases raw with
  | mapping frozen es =>
    have := List.sizeOf_lt_of_mem (show (k, r) ∈ es from h)
    simp only [Prod.mk.sizeOf_spec, mapping.sizeOf_spec] at this ⊢
    omega
  | value v =>
    cases v with
    | map frozen es =>
      obtain ⟨⟨l, w⟩, hw, same⟩ := List.mem_map.1 h
      obtain ⟨-, rfl⟩ := Prod.mk.inj same
      have := List.sizeOf_lt_of_mem hw
      simp only [Prod.mk.sizeOf_spec, value.sizeOf_spec, Value.map.sizeOf_spec] at this ⊢
      omega
    | _ => cases h
  | _ => cases h

theorem sizeOf_lt_of_mem_fields {raw : Raw} {e : Value × Raw} (h : e ∈ raw.fields) :
    sizeOf e.2 < sizeOf raw := by
  have inside (h : e ∈ ((under "fields" raw.entries).map entries).getD []) : sizeOf e.2 < sizeOf raw := by
    cases hr : under "fields" raw.entries with
    | none =>
      rw [hr] at h
      cases h
    | some r =>
      rw [hr] at h
      obtain ⟨k, hk⟩ := exists_mem_of_under hr
      exact (sizeOf_lt_of_mem_entries h).trans (sizeOf_lt_of_mem_entries hk)
  cases raw with
  | made abs rel es =>
    have := List.sizeOf_lt_of_mem (show e ∈ es from h)
    obtain ⟨k, r⟩ := e
    simp only [Prod.mk.sizeOf_spec, made.sizeOf_spec] at this ⊢
    omega
  | _ => exact inside h

/-- **What is converted is built.** -/
theorem built_of_convert {raw : Raw} {t : Tolerance} (h : raw.convert = .ok t) : t.Built := by
  rcases convert_cases h with ⟨built, -⟩ | ⟨abs, rel, fs, reads, made⟩
  · exact built
  · have each : ∀ f ∈ fs, f.2.Built := by
      intro f hf
      obtain ⟨e, he, -, read⟩ := exists_mem_left reads hf
      have smaller := sizeOf_lt_of_mem_fields he
      exact built_of_convert read
    exact made each ▸ Tolerance.built_ofFields each abs rel
termination_by sizeOf raw

/-- **The fields of a structure are those that were given**, the last one for each text of a key. -/
theorem exists_fieldRead {raw : Raw} {abs rel : Option Bound} {fields : List (String × Tolerance)}
    (h : raw.convert = .ok (.structured abs rel fields)) :
    ∃ fs, List.Forall₂ FieldRead raw.fields fs ∧ fields = Tolerance.ofFields fs := by
  rcases convert_cases h with ⟨-, b, ⟨⟩⟩ | ⟨a, r, fs, reads, made⟩
  have each : ∀ f ∈ fs, f.2.Built := by
    intro f hf
    obtain ⟨e, -, -, read⟩ := exists_mem_left reads hf
    exact built_of_convert read
  obtain ⟨rfl, rfl, rfl⟩ := Tolerance.structured.inj (made each)
  exact ⟨fs, reads, rfl⟩

/-! ### Names -/

/-- The field that is given last of those whose keys have a text. -/
def LastField (name : String) (r : Raw) (es : List (Value × Raw)) : Prop :=
  ∃ k, k.text = .ok name ∧ FirstAt (fun e => e.1.text ≠ .ok name) (k, r) es.reverse

theorem exists_lastField {name : String} {es : List (Value × Raw)} (h : ∃ e ∈ es, e.1.text = .ok name) :
    ∃ r, LastField name r es := by
  obtain ⟨e, he, text⟩ := h
  obtain ⟨⟨k, r⟩, first, named⟩ := FirstAt.exists_of_mem (P := fun e => e.1.text ≠ .ok name)
    (List.mem_reverse.2 he) (not_not.2 text)
  exact ⟨r, k, not_not.1 named, first⟩

theorem FieldRead.text_ne_iff {e : Value × Raw} {f : String × Tolerance} (h : FieldRead e f) {name : String} :
    e.1.text ≠ .ok name ↔ f.1 ≠ name := by
  rw [h.1, ne_eq, Except.ok.injEq]

section Names

variable {es : List (Value × Raw)} {fs : List (String × Tolerance)} (h : List.Forall₂ FieldRead es fs)

include h

theorem mem_names_iff {name : String} : name ∈ fs.map Prod.fst ↔ ∃ e ∈ es, e.1.text = .ok name := by
  rw [List.mem_map]
  constructor
  · rintro ⟨f, hf, rfl⟩
    obtain ⟨e, he, text, -⟩ := exists_mem_left h hf
    exact ⟨e, he, text⟩
  · rintro ⟨e, he, text⟩
    obtain ⟨f, hf, read⟩ := exists_mem_right h he
    exact ⟨f, hf, Except.ok.inj (read.1.symm.trans text)⟩

/-- The last field that was given for a name is what stands under it. -/
theorem LastField.fieldNamed? {name : String} {r : Raw} (last : LastField name r es) :
    ∃ t, Tolerance.fieldNamed? name fs.reverse = some t ∧ r.convert = .ok t := by
  obtain ⟨k, hk, first⟩ := last
  obtain ⟨⟨n, t⟩, found, read⟩ := exists_firstAt (R := FieldRead) (Q := fun f => f.1 ≠ name)
    (fun e f hef => hef.text_ne_iff) (List.forall₂_reverse_iff.2 h) first
  obtain rfl : n = name := Except.ok.inj (read.1.symm.trans hk)
  exact ⟨t, Tolerance.fieldNamed?_of_firstAt found, read.2⟩

/-- Under a name for which no field was given nothing stands. -/
theorem fieldNamed?_eq_none {name : String} (none : ∀ e ∈ es, e.1.text ≠ .ok name) :
    Tolerance.fieldNamed? name fs.reverse = .none := by
  refine Tolerance.fieldNamed?_eq_none fun f hf => ?_
  obtain ⟨e, he, read⟩ := exists_mem_left h (List.mem_reverse.1 hf)
  exact read.text_ne_iff.1 (none e he)

end Names

/-! ### Values given as mappings -/

theorem ofEntries_eq_map (es : Value.Entries) : ofEntries es = es.map fun e => (e.1, ofValue e.2) := by
  induction es with
  | nil => rfl
  | cons e es ih =>
    obtain ⟨k, v⟩ := e
    rw [ofEntries, ih, List.map_cons]

theorem bound?_ofEntries (name : String) (es : Value.Entries) :
    bound? name (ofEntries es) = Tolerance.bound? name es := by
  rw [bound?, ofEntries_eq_map, under_map, Tolerance.bound?]
  cases Value.field name es with
  | none => rfl
  | some v => cases v <;> rfl

theorem built_of_mem_fieldsIn {es : Value.Entries} {fs : List (String × Tolerance)}
    (h : Tolerance.fieldsIn es = .ok fs) : ∀ f ∈ fs, f.2.Built := by
  rw [← fieldsIn_map_value] at h
  intro f hf
  obtain ⟨e, -, -, read⟩ := exists_mem_left (forall₂_of_fieldsIn h) hf
  exact built_of_convert read

mutual

/-- **A value is converted like its mappings one by one.**  The second conversion of the fields of each
mapping goes unnoticed, and a value that is refused is refused for the same cause. -/
theorem convert_ofValue : ∀ v : Value, convert (ofValue v) = Tolerance.ofValue v
  | .map frozen es => by
    rw [ofValue, convert, Tolerance.ofValue, fieldsIn_ofEntries es, bound?_ofEntries, bound?_ofEntries]
    cases hfs : Tolerance.fieldsIn es with
    | error f => rfl
    | ok fs =>
      cases Tolerance.bound? "abs" es with
      | error f => rfl
      | ok abs =>
        cases Tolerance.bound? "rel" es with
        | error f => rfl
        | ok rel =>
          exact Tolerance.build_of_built (Tolerance.built_ofFields (built_of_mem_fieldsIn hfs) abs rel)
  | .absent | .null | .bool _ | .int _ | .float _ | .str _ | .list _ | .tuple _ | .bytes _ | .date _ | .moment _
  | .foreign _ | .scalar _ _ | .array _ _ => rfl

theorem fieldsIn_ofEntries : ∀ es : Value.Entries, fieldsIn (ofEntries es) = Tolerance.fieldsIn es
  | [] => rfl
  | (k, v) :: es => by
    rw [ofEntries, fieldsIn, Tolerance.fieldsIn, fieldsOf_ofValue v, fieldsIn_ofEntries es]

theorem fieldsOf_ofValue : ∀ v : Value, fieldsOf (ofValue v) = Tolerance.fieldsOf v
  | .map frozen es => by
    rw [ofValue, fieldsOf, Tolerance.fieldsOf, convertFields_ofEntries es]
  | .absent | .null | .bool _ | .int _ | .float _ | .str _ | .list _ | .tuple _ | .bytes _ | .date _ | .moment _
  | .foreign _ | .scalar _ _ | .array _ _ => rfl

theorem convertFields_ofEntries : ∀ es : Value.Entries, convertFields (ofEntries es) = Tolerance.readFields es
  | [] => rfl
  | (k, v) :: es => by
    rw [ofEntries, convertFields, Tolerance.readFields, convert_ofValue v, convertFields_ofEntries es]

end

/-! ### Tolerances given again -/

theorem convertFields_ofFields {fs : List (String × Tolerance)}
    (h : ∀ f ∈ fs, convert (ofTolerance f.2) = .ok f.2) : convertFields (ofFields fs) = .ok fs := by
  induction fs with
  | nil => rfl
  | cons f fs ih =>
    rw [List.forall_mem_cons] at h
    rw [ofFields, convertFields, h.1, ih h.2]
    rfl

/-- **A tolerance that is built is converted to itself.** -/
theorem convert_ofTolerance {t : Tolerance} (h : t.Built) : convert (ofTolerance t) = .ok t := by
  induction h with
  | null => rfl
  | bound x => rfl
  | absence => rfl
  | @«structured» abs rel fields names each ih =>
    have same : convert (ofTolerance (.structured abs rel fields)) =
        .ok (.structured abs rel (Tolerance.ofFields fields)) := by
      rw [ofTolerance, convert, convertFields_ofFields ih]
      rfl
    rw [same, Tolerance.ofFields_of_nodup names]

end Raw

end Assay
