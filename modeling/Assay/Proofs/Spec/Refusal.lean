import Assay.Proofs.Spec.Belonging
import Assay.Proofs.Value.Writable

/-!
# Documents that are refused

A document outside the grammar is refused with the messages of all its problems.  Each message shows
values of the document, and the tolerances are written out in any case, so that only a long integer inside
the document can keep it from being accepted or refused.

* `Complaint.shown`, `Grammar.written` — the values that a complaint shows, and all that is written out;
* `tellAll_succeedsIff` — problems are told exactly if all that they show can be written;
* `Shows` — a form complains of nothing but what stands in the value;
* `group_shows`, `document_shows`, `inside_of_mem_written` — all forms are such, and so are the tolerances;
* `validate_cases` — which documents are accepted, and how the others are refused.
-/

namespace Assay

/-! ### Telling problems -/

/-- The values that a complaint shows. -/
def Complaint.shown : Complaint → List Value
  | .notOfType v _ => [v]
  | .empty v => [v]
  | .missing _ => []
  | .unexpected keys => keys
  | .notListed v => [v]
  | .unfit v => [v]

/-- A complaint is told exactly if all that it shows can be written. -/
theorem Complaint.message_succeedsIff (c : Complaint) :
    SucceedsIff c.message (∀ v ∈ c.shown, v.Writable) := by
  have one (v : Value) : v.Writable ↔ ∀ w ∈ [v], w.Writable := by simp
  cases c with
  | notOfType v type => exact ((Value.literal_succeedsIff v).last fun _ => ⟨_, rfl⟩).congr (one v)
  | empty v => exact ((Value.literal_succeedsIff v).last fun _ => ⟨_, rfl⟩).congr (one v)
  | missing name => exact (SucceedsIff.ok _).congr (by simp [shown])
  | unexpected keys => exact (Value.literals_succeedsIff keys).last fun _ => ⟨_, rfl⟩
  | notListed v => exact ((Value.literal_succeedsIff v).last fun _ => ⟨_, rfl⟩).congr (one v)
  | unfit v => exact ((Value.literal_succeedsIff v).last fun _ => ⟨_, rfl⟩).congr (one v)

namespace Problem

/-- **Problems are told together exactly if all that they show can be written.** -/
theorem tellAll_succeedsIff (ps : List Problem) :
    SucceedsIff (tellAll ps) (∀ p ∈ ps, ∀ v ∈ p.complaint.shown, v.Writable) := by
  induction ps with
  | nil => exact (SucceedsIff.ok _).congr (by simp)
  | cons p ps ih =>
    have head : SucceedsIff p.tell (∀ v ∈ p.complaint.shown, v.Writable) :=
      p.complaint.message_succeedsIff.last fun _ => ⟨_, rfl⟩
    rw [tellAll]
    refine (head.bind fun _ => ih.last fun _ => ⟨_, rfl⟩).congr ?_
    rw [List.forall_mem_cons]

/-- Each problem is told by itself. -/
theorem length_tellAll {ps : List Problem} {ts : List Told} (h : tellAll ps = .ok ts) :
    ts.length = ps.length := by
  induction ps generalizing ts with
  | nil =>
    cases h
    rfl
  | cons p ps ih =>
    rw [tellAll] at h
    obtain ⟨t, -, h⟩ := bind_eq_ok_iff.1 h
    obtain ⟨rest, hrest, ⟨⟩⟩ := bind_eq_ok_iff.1 h
    rw [List.length_cons, List.length_cons, ih hrest]

end Problem

theorem Value.Inside.trans {x y z : Value} (hxy : Inside x y) (hyz : Inside y z) : Inside x z := by
  induction hyz with
  | self => exact hxy
  | list hy _ ih => exact .list hy ih
  | tuple hy _ ih => exact .tuple hy ih
  | key hk _ ih => exact .key hk ih
  | entry hy _ ih => exact .entry hy ih
  | array _ ih => exact .array ih

namespace Grammar

open Value (Entries Inside)

/-! ### What is shown -/

/-- Problems that show nothing but what stands in a value. -/
def ShowInside (v : Value) (ps : List Problem) : Prop :=
  ∀ p ∈ ps, ∀ x ∈ p.complaint.shown, Inside x v

/-- A form whose problems show nothing but what stands in the value. -/
def Shows (form : List String → Value → List Problem) : Prop := ∀ place v, ShowInside v (form place v)

theorem ShowInside.nil (v : Value) : ShowInside v [] := nofun

theorem ShowInside.append {v : Value} {ps qs : List Problem} (hp : ShowInside v ps)
    (hq : ShowInside v qs) : ShowInside v (ps ++ qs) :=
  fun p h => (List.mem_append.1 h).elim (hp p) (hq p)

/-- A complaint that shows the value itself. -/
theorem showInside_problem {v : Value} {place : List String} {c : Complaint} (h : c.shown = [v]) :
    ShowInside v (problem place c) := by
  intro p hp x hx
  obtain rfl := List.mem_singleton.1 hp
  rw [h, List.mem_singleton] at hx
  exact hx ▸ .self v

theorem anything_shows : Shows anything := fun _ v => .nil v

theorem text_shows : Shows text := by
  intro place v
  unfold text
  split
  · exact .nil v
  · exact showInside_problem rfl

theorem nonEmptyText_shows : Shows nonEmptyText := by
  intro place v
  unfold nonEmptyText
  split
  · split
    · exact showInside_problem rfl
    · exact .nil v
  · exact showInside_problem rfl

theorem truthValue_shows : Shows truthValue := by
  intro place v
  unfold truthValue
  split
  · exact .nil _
  · exact showInside_problem rfl

theorem mode_shows : Shows mode := by
  intro place v
  unfold mode
  split
  · exact .nil v
  · exact showInside_problem rfl

theorem tolerance_shows : Shows tolerance := by
  intro place v
  unfold tolerance
  split
  · exact .nil v
  · exact showInside_problem rfl

theorem items_show {item : List String → Value → List Problem} {place : List String} {i : Nat}
    {xs : List Value} (h : ∀ x ∈ xs, ∀ p, ShowInside x (item p x)) :
    ∀ p ∈ items place item i xs, ∃ x ∈ xs, ∀ y ∈ p.complaint.shown, Inside y x := by
  induction xs generalizing i with
  | nil => nofun
  | cons x xs ih =>
    intro p hp
    rcases List.mem_append.1 hp with hp | hp
    · exact ⟨x, by simp, h x (by simp) _ p hp⟩
    · obtain ⟨y, hy, hshow⟩ := ih (fun y hy => h y (List.mem_cons_of_mem _ hy)) p hp
      exact ⟨y, List.mem_cons_of_mem _ hy, hshow⟩

/-- A list shows what its items show. -/
theorem listOf_show {item : List String → Value → List Problem} {place : List String} {v : Value}
    (h : ∀ xs, v = .list xs → ∀ x ∈ xs, ∀ p, ShowInside x (item p x)) :
    ShowInside v (listOf item place v) := by
  cases v with
  | list xs =>
    intro p hp y hy
    obtain ⟨x, hx, hshow⟩ := items_show (h xs rfl) p hp
    exact .list hx (hshow y hy)
  | _ => exact showInside_problem rfl

theorem listOf_shows {item : List String → Value → List Problem} (h : Shows item) :
    Shows (listOf item) :=
  fun _ _ => listOf_show fun _ _ x _ p => h p x

theorem required_show (place names : List String) (es : Entries) (v : Value) :
    ShowInside v (required place names es) := by
  intro p hp x hx
  obtain ⟨n, -, rfl⟩ := List.mem_map.1 hp
  cases hx

theorem unexpected_show (place names : List String) (es : Entries) :
    ShowInside (.dict es) (unexpected place names es) := by
  unfold unexpected
  dsimp only
  split
  · exact .nil _
  · intro p hp x hx
    obtain rfl := List.mem_singleton.1 hp
    have key := List.mem_of_mem_filter (List.mem_mergeSort.1 hx)
    obtain ⟨⟨k, v⟩, he, rfl⟩ := List.mem_map.1 key
    exact .key he (.self k)

/-- The entries of a mapping show what their forms show. -/
theorem entries_show {form : String → List String → Value → List Problem} {place : List String}
    {es : Entries} (h : ∀ n w, Under es n w → ∀ p, ShowInside w (form n p w)) :
    ShowInside (.dict es) (entries form place es) := by
  intro p hp x hx
  obtain ⟨⟨k, w⟩, he, hp⟩ := List.mem_flatMap.1 hp
  dsimp only at hp
  cases hk : nameOf k with
  | none =>
    rw [hk] at hp
    cases hp
  | some n =>
    rw [hk] at hp
    exact .entry he (h n w ⟨k, he, hk⟩ _ p hp x hx)

theorem defaults_shows : Shows defaults := by
  have forms (n : String) : Shows (defaultsForm n) := by
    unfold defaultsForm
    split
    exacts [mode_shows, tolerance_shows, anything_shows]
  intro place v
  unfold defaults
  split
  · exact (unexpected_show _ _ _).append (entries_show fun n w _ p => forms n p w)
  · exact showInside_problem rfl

theorem test_shows : Shows test := by
  have forms (n : String) : Shows (testForm n) := by
    unfold testForm
    split
    exacts [nonEmptyText_shows, text_shows, nonEmptyText_shows, text_shows, mode_shows, tolerance_shows,
      truthValue_shows, text_shows, anything_shows]
  intro place v
  unfold test
  split
  · exact ((required_show _ _ _ _).append (unexpected_show _ _ _)).append
      (entries_show fun n w _ p => forms n p w)
  · exact showInside_problem rfl

/-- **The problems of a group show nothing but what stands in it.** -/
theorem group_shows (place : List String) (v : Value) : ShowInside v (group place v) := by
  cases v with
  | map frozen es =>
    cases frozen with
    | false =>
      rw [group, groupEntries_eq_entries]
      refine ((required_show _ _ _ _).append (unexpected_show _ _ _)).append ?_
      refine entries_show fun n w hw p => ?_
      unfold groupForm
      split
      · exact nonEmptyText_shows p w
      · exact text_shows p w
      · exact defaults_shows p w
      · rw [groups_eq_listOf]
        refine listOf_show fun xs hxs x hx q => ?_
        have smaller := sizeOf_lt_of_group (hxs ▸ hw) hx
        exact group_shows q x
      · exact listOf_shows test_shows p w
      · exact anything_shows p w
    | true => exact showInside_problem rfl
  | _ => exact showInside_problem rfl
termination_by sizeOf v
decreasing_by exact smaller

/-- **The problems of a document show nothing but what stands in it.** -/
theorem document_shows (v : Value) : ShowInside v (document v) := by
  have groups_shows : Shows groups := by
    intro p w
    rw [groups_eq_listOf]
    exact listOf_shows group_shows p w
  have forms (n : String) : Shows (documentForm n) := by
    unfold documentForm
    split
    exacts [nonEmptyText_shows, text_shows, text_shows, listOf_shows text_shows, defaults_shows,
      groups_shows, anything_shows]
  unfold document
  split
  · exact (required_show _ _ _ _).append (entries_show fun n w _ p => forms n p w)
  · exact showInside_problem rfl

/-! ### What is written out -/

theorem inside_of_field {es : Entries} {name : String} {w x : Value} (h : Value.field name es = some w)
    (hx : Inside x w) : Inside x (.dict es) := by
  obtain ⟨k, he, -⟩ := Value.mem_of_lookup h
  exact .entry he hx

theorem inside_of_mem_toleranceIn {v t : Value} (h : t ∈ toleranceIn v) : Inside t v := by
  unfold toleranceIn at h
  split at h
  · exact inside_of_field (Option.mem_toList.1 h) (.self t)
  · cases h

theorem inside_of_mem_tolerancesOfTests {v t : Value} (h : t ∈ tolerancesOfTests (some v)) : Inside t v := by
  unfold tolerancesOfTests at h
  split at h
  · rename_i xs hv
    obtain ⟨x, hx, ht⟩ := List.mem_flatMap.1 h
    obtain rfl := Option.some.inj hv
    exact .list hx (inside_of_mem_toleranceIn ht)
  · cases h

theorem inside_of_mem_defaults {es : Entries} {t : Value}
    (h : t ∈ (Value.field "defaults" es).toList.flatMap toleranceIn) : Inside t (.dict es) := by
  obtain ⟨w, hw, ht⟩ := List.mem_flatMap.1 h
  exact inside_of_field (Option.mem_toList.1 hw) (inside_of_mem_toleranceIn ht)

mutual

theorem inside_of_mem_tolerancesOfGroup : ∀ {v t : Value}, t ∈ tolerancesOfGroup v → Inside t v
  | .map false es, t, h => by
    rw [tolerancesOfGroup, List.mem_append, List.mem_append] at h
    rcases h with (h | h) | h
    · exact inside_of_mem_defaults h
    · cases hw : Value.field "tests" es with
      | none =>
        rw [hw] at h
        cases h
      | some w =>
        rw [hw] at h
        exact inside_of_field hw (inside_of_mem_tolerancesOfTests h)
    · obtain ⟨e, he, ht⟩ := inside_of_mem_tolerancesOfEntries h
      exact .entry he ht
  | .map true _, _, h | .absent, _, h | .null, _, h | .bool _, _, h | .int _, _, h | .float _, _, h
  | .str _, _, h | .list _, _, h | .tuple _, _, h | .bytes _, _, h | .date _, _, h | .moment _, _, h
  | .foreign _, _, h | .scalar _ _, _, h | .array _ _, _, h => by cases h

theorem inside_of_mem_tolerancesOfEntries : ∀ {es : Entries} {t : Value}, t ∈ tolerancesOfEntries es →
    ∃ e ∈ es, Inside t e.2
  | (k, v) :: es, t, h => by
    rw [tolerancesOfEntries] at h
    split at h
    · exact ⟨(k, v), List.mem_cons_self, inside_of_mem_tolerancesOfGroups h⟩
    · obtain ⟨e, he, ht⟩ := inside_of_mem_tolerancesOfEntries h
      exact ⟨e, List.mem_cons_of_mem _ he, ht⟩

theorem inside_of_mem_tolerancesOfGroups : ∀ {v t : Value}, t ∈ tolerancesOfGroups v → Inside t v
  | .list xs, t, h => by
    obtain ⟨x, hx, ht⟩ := inside_of_mem_tolerancesOfItems h
    exact .list hx ht
  | .map _ _, _, h | .absent, _, h | .null, _, h | .bool _, _, h | .int _, _, h | .float _, _, h
  | .str _, _, h | .tuple _, _, h | .bytes _, _, h | .date _, _, h | .moment _, _, h
  | .foreign _, _, h | .scalar _ _, _, h | .array _ _, _, h => by cases h

theorem inside_of_mem_tolerancesOfItems : ∀ {xs : List Value} {t : Value}, t ∈ tolerancesOfItems xs →
    ∃ x ∈ xs, Inside t x
  | x :: xs, t, h => by
    rw [tolerancesOfItems, List.mem_append] at h
    rcases h with h | h
    · exact ⟨x, List.mem_cons_self, inside_of_mem_tolerancesOfGroup h⟩
    · obtain ⟨y, hy, ht⟩ := inside_of_mem_tolerancesOfItems h
      exact ⟨y, List.mem_cons_of_mem _ hy, ht⟩

end

/-- All that is written out of a document: its tolerances, and what its problems show. -/
def written (v : Value) : List Value :=
  tolerances v ++ (document v).flatMap fun p => p.complaint.shown

/-- **What is written out of a document stands in it.** -/
theorem inside_of_mem_written {v x : Value} (h : x ∈ written v) : Inside x v := by
  rcases List.mem_append.1 h with h | h
  · unfold tolerances at h
    split at h
    · rcases List.mem_append.1 h with h | h
      · exact inside_of_mem_defaults h
      · obtain ⟨e, he, hx⟩ := inside_of_mem_tolerancesOfEntries h
        exact .entry he hx
    · cases h
  · obtain ⟨p, hp, hx⟩ := List.mem_flatMap.1 h
    exact document_shows v p hp x hx

/-- **The validator answers exactly if all that it writes out can be written.** -/
theorem validator_succeedsIff (d : SchemaDocument) (v : Value) :
    SucceedsIff (validator d v) (∀ x ∈ written v, x.Writable) := by
  have answers := (Value.literals_succeedsIff (tolerances v)).bind fun _ =>
    Problem.tellAll_succeedsIff (document v)
  refine answers.congr ?_
  simp only [written, List.mem_append, List.mem_flatMap]
  grind

/-- An answer of the validator tells of each problem. -/
theorem validator_eq_nil_iff {d : SchemaDocument} {v : Value} {ts : List Told} (h : validator d v = .ok ts) :
    ts = [] ↔ IsSpecification v := by
  obtain ⟨_, -, told⟩ := bind_eq_ok_iff.1 h
  have count := Problem.length_tellAll told
  rw [← document_eq_nil_iff, ← List.length_eq_zero_iff, count, List.length_eq_zero_iff]

end Grammar

namespace Document

open Grammar (IsSpecification written)

section

variable {validator : Validator} {v : Value}

theorem validateBy_of_error {f : Fault} (h : validator Schema.specification v = .error f) :
    validateBy validator v = .error (.fault f) := by
  rw [validateBy, h]

theorem validateBy_of_nil (h : validator Schema.specification v = .ok []) :
    validateBy validator v = .ok () := by
  rw [validateBy, h]

/-- What is told of a document that is refused. -/
theorem validateBy_of_ne_nil {ts : List Told} (h : validator Schema.specification v = .ok ts)
    (some : ts ≠ []) :
    ∃ ms, ms ≠ [] ∧ ms = (Told.sorted ts).map Told.line ∧ validateBy validator v = .error (.invalid ms) := by
  refine ⟨_, ?_, rfl, ?_⟩
  · rw [ne_eq, List.map_eq_nil_iff, ← List.length_eq_zero_iff, Told.sorted, List.length_mergeSort,
      List.length_eq_zero_iff]
    exact some
  · unfold validateBy
    rw [h]
    cases ts with
    | nil => exact absurd rfl some
    | cons => rfl

end

/-- **Which documents are accepted.**  A value is accepted if it belongs to the grammar, and refused with a
message for each problem, in the order of the places, if it does not; only where a long integer stands in
what is written out that is what stops it instead. -/
theorem validate_cases (v : Value) :
    ((∀ x ∈ written v, x.Writable) ∧ IsSpecification v ∧ validate v = .ok ()) ∨
      ((∀ x ∈ written v, x.Writable) ∧ ¬ IsSpecification v ∧
        ∃ ms, ms ≠ [] ∧ validate v = .error (.invalid ms)) ∨
      ((¬ ∀ x ∈ written v, x.Writable) ∧ validate v = .error (.fault .longInteger)) := by
  rcases Grammar.validator_succeedsIff Schema.specification v with ⟨short, ts, told⟩ | ⟨long, fault⟩
  · have none := Grammar.validator_eq_nil_iff told
    by_cases belongs : IsSpecification v
    · obtain rfl := none.2 belongs
      exact Or.inl ⟨short, belongs, validateBy_of_nil told⟩
    · obtain ⟨ms, some, -, refused⟩ := validateBy_of_ne_nil told (mt none.1 belongs)
      exact Or.inr (Or.inl ⟨short, belongs, ms, some, refused⟩)
  · exact Or.inr (Or.inr ⟨long, validateBy_of_error fault⟩)

/-- A document is valid exactly if it belongs to the grammar and its tolerances can be written. -/
theorem validate_eq_ok_iff {v : Value} :
    validate v = .ok () ↔ IsSpecification v ∧ ∀ t ∈ Grammar.tolerances v, t.Writable := by
  have tolerances {t : Value} (ht : t ∈ Grammar.tolerances v) : t ∈ written v := List.mem_append_left _ ht
  rcases validate_cases v with ⟨short, belongs, valid⟩ | ⟨-, outside, ms, -, refused⟩ | ⟨long, fault⟩
  · exact iff_of_true valid ⟨belongs, fun t ht => short t (tolerances ht)⟩
  · exact iff_of_false (by simp [refused]) fun h => outside h.1
  · refine iff_of_false (by simp [fault]) fun ⟨belongs, short⟩ => long fun x hx => ?_
    rw [written, Grammar.document_eq_nil_iff.2 belongs, List.flatMap_nil, List.append_nil] at hx
    exact short x hx

end Document

end Assay
