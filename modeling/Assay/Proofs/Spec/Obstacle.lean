import Assay.Proofs.Comparison.Distance
import Assay.Proofs.Spec.Belonging
import Assay.Proofs.Value.Writable

/-!
# Tolerances of the grammar that cannot be read

The grammar asks of a bound that it is a number and not below zero, and of the fields of a tolerance
that they are tolerances.  Reading asks for more: a bound must fit a double, a plain bound must be an
integer or a double itself, and the key of a field must have a text.

* `SucceedsUnless` — a computation succeeds, or it fails by one of its obstacles;
* `Beyond` — an integer that no double comes near to;
* `Obstacle` — what keeps a tolerance from being read;
* `ofValue_succeedsUnless` — a tolerance of the grammar is read exactly if nothing does.
-/

namespace Assay

/-! ### Computations with obstacles -/

/-- The computation succeeds if there is no obstacle, and otherwise it fails by one of them. -/
def SucceedsUnless {ε α : Type} (r : Except ε α) (obstacle : ε → Prop) : Prop :=
  (∃ a, r = .ok a ∧ ∀ f, ¬ obstacle f) ∨ ∃ f, r = .error f ∧ obstacle f

namespace SucceedsUnless

variable {ε α β : Type} {r : Except ε α} {p q : ε → Prop}

theorem ok (a : α) : SucceedsUnless (.ok a : Except ε α) fun _ => False :=
  Or.inl ⟨a, rfl, fun _ => id⟩

theorem error {f : ε} (h : p f) : SucceedsUnless (.error f : Except ε α) p := Or.inr ⟨f, rfl, h⟩

theorem congr (h : SucceedsUnless r p) (hpq : ∀ f, p f ↔ q f) : SucceedsUnless r q := by
  rcases h with ⟨a, hr, none⟩ | ⟨f, hr, hf⟩
  · exact Or.inl ⟨a, hr, fun f hf => none f ((hpq f).2 hf)⟩
  · exact Or.inr ⟨f, hr, (hpq f).1 hf⟩

/-- Two steps have the obstacles of both. -/
theorem bind {g : α → Except ε β} (h : SucceedsUnless r p) (hg : ∀ a, SucceedsUnless (g a) q) :
    SucceedsUnless (r >>= g) fun f => p f ∨ q f := by
  rcases h with ⟨a, rfl, none⟩ | ⟨f, rfl, hf⟩
  · exact (hg a).congr fun f => (or_iff_right (none f)).symm
  · exact Or.inr ⟨f, rfl, Or.inl hf⟩

/-- A last step that cannot fail has no obstacles. -/
theorem last {g : α → Except ε β} (h : SucceedsUnless r p) (hg : ∀ a, ∃ b, g a = .ok b) :
    SucceedsUnless (r >>= g) p := by
  rcases h with ⟨a, rfl, none⟩ | ⟨f, rfl, hf⟩
  · obtain ⟨b, hb⟩ := hg a
    exact Or.inl ⟨b, hb, none⟩
  · exact Or.inr ⟨f, rfl, hf⟩

theorem map (h : SucceedsUnless r p) (g : α → β) : SucceedsUnless (r.map g) p := by
  rcases h with ⟨a, rfl, none⟩ | ⟨f, rfl, hf⟩
  · exact Or.inl ⟨g a, rfl, none⟩
  · exact Or.inr ⟨f, rfl, hf⟩

/-- Steps for the items of a list have the obstacles of all items. -/
theorem mapM {xs : List α} {g : α → Except ε β} {p : α → ε → Prop}
    (h : ∀ x ∈ xs, SucceedsUnless (g x) (p x)) :
    SucceedsUnless (xs.mapM g) fun f => ∃ x ∈ xs, p x f := by
  induction xs with
  | nil => exact (ok []).congr (by simp)
  | cons x xs ih =>
    rw [List.forall_mem_cons] at h
    rw [List.mapM_cons]
    refine (h.1.bind fun y => (ih h.2).last fun ys => ⟨_, rfl⟩).congr ?_
    simp

theorem ok_iff (h : SucceedsUnless r p) : (∃ a, r = .ok a) ↔ ∀ f, ¬ p f := by
  rcases h with ⟨a, hr, none⟩ | ⟨f, hr, hf⟩
  · exact iff_of_true ⟨a, hr⟩ none
  · refine iff_of_false ?_ fun none => none f hf
    rw [hr]
    exact nofun

theorem of_error (h : SucceedsUnless r p) {f : ε} (hr : r = .error f) : p f := by
  rcases h with ⟨a, ha, -⟩ | ⟨f', hf', hp⟩
  · cases ha.symm.trans hr
  · cases hf'.symm.trans hr
    exact hp

end SucceedsUnless

theorem SucceedsIff.succeedsUnless {α : Type} {r : Except Fault α} {p : Prop} (h : SucceedsIff r p) :
    SucceedsUnless r fun f => ¬ p ∧ f = .longInteger := by
  rcases h with ⟨hp, a, hr⟩ | ⟨hp, hr⟩
  · exact Or.inl ⟨a, hr, fun f hf => hf.1 hp⟩
  · exact Or.inr ⟨_, hr, hp, rfl⟩

namespace Grammar

open Value (Entries)

/-! ### Obstacles -/

/-- The value is an integer whose nearest double is an infinity. -/
def Beyond (v : Value) : Prop :=
  ∃ i s, numberOf? v = some (.int i) ∧ Double.IsNearest i (.infinite s)

/-- What keeps a tolerance of the grammar from being read, and the fault by which it does. -/
inductive Obstacle : Value → Fault → Prop
  /-- A plain bound is an integer that no double comes near to. -/
  | large {i : Int} (h : Beyond (.int i)) : Obstacle (.int i) .tooLarge
  /-- A plain bound is a scalar of a numeric library, and no double. -/
  | scalar {e : Element} {item : Item} {shown : String}
      (h : ∀ x, Value.scalar e item ≠ .scalar .double (.float x))
      (text : (Value.scalar e item).literal = .ok shown) : Obstacle (.scalar e item) (.badTolerance shown)
  /-- The absolute or the relative bound is an integer that no double comes near to. -/
  | bound {es : Entries} {name : String} {v : Value} (hn : name = "abs" ∨ name = "rel")
      (hv : Value.field name es = some v) (h : Beyond v) : Obstacle (.dict es) .tooLarge
  /-- The key of a field has no text. -/
  | key {es fs : Entries} {k v : Value} (hf : Value.field "fields" es = some (.dict fs))
      (hk : (k, v) ∈ fs) (h : ¬ k.Writable) : Obstacle (.dict es) .longInteger
  /-- The tolerance of a field cannot be read. -/
  | field {es fs : Entries} {k v : Value} {f : Fault} (hf : Value.field "fields" es = some (.dict fs))
      (hk : (k, v) ∈ fs) (h : Obstacle v f) : Obstacle (.dict es) f

/-! ### Bounds -/

/-- An integer near to an infinity becomes one. -/
theorem ofInt_of_isNearest {i : Int} {s : Bool} (h : Double.IsNearest i (.infinite s)) :
    ∃ t, Double.ofInt i = .infinite t := by
  have value := (Double.ofInt_isNearest i).toRat?_eq h
  have none : (Double.infinite s).toRat? = none := rfl
  rcases Quantity.doubleOfInt?_cases i with ⟨t, infinite, -⟩ | ⟨t, m, finite, -⟩
  · exact ⟨t, infinite⟩
  · rw [finite, Double.toRat?_finite, none] at value
    cases value

theorem beyond_int_iff {i : Int} : Beyond (.int i) ↔ ∃ s, Double.ofInt i = .infinite s := by
  apply Iff.intro
  · intro ⟨j, s, hj, h⟩
    obtain rfl : i = j := Quantity.int.inj (Option.some.inj hj)
    exact ofInt_of_isNearest h
  · intro ⟨s, h⟩
    exact ⟨i, s, rfl, h ▸ Double.ofInt_isNearest i⟩

theorem ofInteger_succeedsUnless (i : Int) :
    SucceedsUnless (Tolerance.ofInteger i) fun f => Beyond (.int i) ∧ f = .tooLarge := by
  rcases Quantity.doubleOfInt?_cases i with ⟨s, infinite, none⟩ | ⟨s, m, finite, some⟩
  · have beyond := beyond_int_iff.2 ⟨s, infinite⟩
    rw [Tolerance.ofInteger, none, Option.elim_none]
    exact SucceedsUnless.error ⟨beyond, rfl⟩
  · have within : ¬ Beyond (.int i) := by
      rw [beyond_int_iff, finite]
      exact nofun
    rw [Tolerance.ofInteger, some, Option.elim_some]
    exact (SucceedsUnless.ok _).congr fun f => iff_of_false id fun h => within h.1

theorem toDouble_int (i : Int) : Tolerance.toDouble (.int i) = Tolerance.ofInteger i := rfl

theorem toDouble_scalar_int (e : Element) (i : Int) :
    Tolerance.toDouble (.scalar e (.int i)) = Tolerance.ofInteger i := rfl

/-- A bound becomes a double, unless it is an integer that no double comes near to. -/
theorem toDouble_succeedsUnless {v : Value} (h : IsBound v) :
    SucceedsUnless (Tolerance.toDouble v) fun f => Beyond v ∧ f = .tooLarge := by
  obtain ⟨q, hq, -⟩ := h
  have float {x : Double} (hv : numberOf? v = some (.double x)) (a : Double) :
      SucceedsUnless (.ok a) fun f => Beyond v ∧ f = Fault.tooLarge := by
    refine (SucceedsUnless.ok a).congr fun f => iff_of_false id ?_
    rintro ⟨⟨i, s, hi, -⟩, -⟩
    cases hv.symm.trans hi
  unfold numberOf? at hq
  split at hq
  · rename_i i
    rw [toDouble_int]
    exact ofInteger_succeedsUnless i
  · exact float rfl _
  · rename_i e i
    rw [toDouble_scalar_int]
    exact ofInteger_succeedsUnless i
  · exact float rfl _
  · cases hq

theorem bound?_succeedsUnless {es : Entries} {name : String}
    (h : ∀ v, Value.field name es = some v → IsBound v) :
    SucceedsUnless (Tolerance.bound? name es) fun f =>
      ∃ v, Value.field name es = some v ∧ Beyond v ∧ f = .tooLarge := by
  unfold Tolerance.bound?
  cases hv : Value.field name es with
  | none => exact (SucceedsUnless.ok _).congr (by simp)
  | some v =>
    have read := ((toDouble_succeedsUnless (h v hv)).map fun x => some (Bound.float x)).congr
      (q := fun f => ∃ w, some v = some w ∧ Beyond w ∧ f = .tooLarge) (by simp)
    cases v with
    | null =>
      obtain ⟨q, hq, -⟩ := h _ hv
      cases hq
    | _ => exact read

/-! ### Tolerances -/

theorem fieldsIn_eq (es : Entries) :
    Tolerance.fieldsIn es = (Value.field "fields" es).elim (.ok []) Tolerance.fieldsOf := by
  induction es with
  | nil => rfl
  | cons e es ih =>
    obtain ⟨k, v⟩ := e
    rw [Tolerance.fieldsIn, Value.field, Value.lookup]
    split
    · rfl
    · exact ih

theorem readFields_eq_mapM (fs : Entries) :
    Tolerance.readFields fs = fs.mapM fun e => do
      let name ← e.1.text
      let t ← Tolerance.ofValue e.2
      return (name, t) := by
  induction fs with
  | nil => rfl
  | cons e fs ih =>
    obtain ⟨k, v⟩ := e
    rw [Tolerance.readFields, List.mapM_cons, ih]
    cases k.text with
    | error f => rfl
    | ok name =>
      cases Tolerance.ofValue v with
      | error f => rfl
      | ok t => rfl

/-- Fields are read, unless a key has no text or a tolerance cannot be read. -/
theorem readFields_succeedsUnless {fs : Entries}
    (h : ∀ k v, (k, v) ∈ fs → SucceedsUnless (Tolerance.ofValue v) (Obstacle v)) :
    SucceedsUnless (Tolerance.readFields fs) fun f =>
      ∃ k v, (k, v) ∈ fs ∧ ((¬ k.Writable ∧ f = .longInteger) ∨ Obstacle v f) := by
  rw [readFields_eq_mapM]
  have each : ∀ e ∈ fs, SucceedsUnless (do
      let name ← e.1.text
      let t ← Tolerance.ofValue e.2
      return (name, t)) fun f => (¬ e.1.Writable ∧ f = .longInteger) ∨ Obstacle e.2 f := by
    intro e he
    exact (Value.text_succeedsIff e.1).succeedsUnless.bind fun _ =>
      (h e.1 e.2 he).last fun _ => ⟨_, rfl⟩
  refine (SucceedsUnless.mapM each).congr fun f => ?_
  simp

theorem ofValue_bound_succeedsUnless {v : Value} (h : IsBound v) :
    SucceedsUnless (Tolerance.ofValue v) (Obstacle v) := by
  obtain ⟨q, hq, -⟩ := h
  cases v with
  | int i =>
    rw [Tolerance.ofValue, toDouble_int]
    refine ((ofInteger_succeedsUnless i).last fun x => ⟨_, rfl⟩).congr fun f => ?_
    constructor
    · rintro ⟨beyond, rfl⟩
      exact .large beyond
    · rintro (beyond | _)
      exact ⟨beyond, rfl⟩
  | float x =>
    rw [Tolerance.ofValue]
    refine (SucceedsUnless.ok _).congr fun f => iff_of_false id ?_
    rintro ⟨⟩
  | scalar e item =>
    have shown := (Value.literal_succeedsIff (.scalar e item)).isOk_iff.2
      (Value.writable_leaf (by rintro x ⟨⟩; rfl) (by simp))
    obtain ⟨text, shown⟩ := shown
    by_cases double : ∃ x, Value.scalar e item = .scalar .double (.float x)
    · obtain ⟨x, double⟩ := double
      rw [double, Tolerance.ofValue]
      refine (SucceedsUnless.ok _).congr fun f => iff_of_false id ?_
      intro h
      cases h with
      | scalar h _ => exact h x rfl
    · have other : ∀ x, Value.scalar e item ≠ .scalar .double (.float x) := fun x hx => double ⟨x, hx⟩
      have refused : Tolerance.ofValue (.scalar e item) = .error (.badTolerance text) := by
        rw [Tolerance.ofValue, shown]
        · rfl
        all_goals simp_all
      rw [refused]
      exact SucceedsUnless.error (.scalar other shown)
  | _ => cases hq

/-- **A tolerance of the grammar is read, unless there is an obstacle.** -/
theorem ofValue_succeedsUnless {v : Value} (h : IsTolerance v) :
    SucceedsUnless (Tolerance.ofValue v) (Obstacle v) := by
  induction h with
  | bound h => exact ofValue_bound_succeedsUnless h
  | @«structure» es only abs rel fields field ih =>
    have inner : SucceedsUnless (Tolerance.fieldsIn es) fun f =>
        ∃ fs k v, Value.field "fields" es = some (.dict fs) ∧ (k, v) ∈ fs ∧
          ((¬ k.Writable ∧ f = .longInteger) ∨ Obstacle v f) := by
      rw [fieldsIn_eq]
      cases hf : Value.field "fields" es with
      | none => exact (SucceedsUnless.ok _).congr (by simp)
      | some w =>
        obtain ⟨fs, rfl⟩ := fields w (under_of_field hf)
        refine (readFields_succeedsUnless fun k v hk => ih fs k v (under_of_field hf) hk).congr fun f => ?_
        simp
    have limits (name : String) (hn : ∀ v, Under es name v → IsBound v) :=
      bound?_succeedsUnless fun v (hv : Value.field name es = some v) => hn v (under_of_field hv)
    rw [Tolerance.ofValue]
    refine (inner.bind fun _ => (limits "abs" abs).bind fun _ =>
      (limits "rel" rel).last fun _ => ⟨_, rfl⟩).congr fun f => ?_
    constructor
    · rintro (⟨fs, k, v, hf, hk, ⟨long, rfl⟩ | h⟩ | ⟨v, hv, beyond, rfl⟩ | ⟨v, hv, beyond, rfl⟩)
      · exact .key hf hk long
      · exact .field hf hk h
      · exact .bound (Or.inl rfl) hv beyond
      · exact .bound (Or.inr rfl) hv beyond
    · intro h
      cases h with
      | key hf hk long => exact Or.inl ⟨_, _, _, hf, hk, Or.inl ⟨long, rfl⟩⟩
      | field hf hk h => exact Or.inl ⟨_, _, _, hf, hk, Or.inr h⟩
      | bound hn hv beyond =>
        rcases hn with rfl | rfl
        · exact Or.inr (Or.inl ⟨_, hv, beyond, rfl⟩)
        · exact Or.inr (Or.inr ⟨_, hv, beyond, rfl⟩)

end Grammar

end Assay
