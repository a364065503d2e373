import Assay.Value.Written

/-!
# Values that can be written

A literal, a plain text or a displayed text of a value fails for one reason only: an integer with too
many digits stands in the value, be it in a key.

* `Inside` — what stands in a value, keys and the contents of arrays included;
* `Writable` — no integer inside has too many digits;
* `SucceedsIff` — a computation succeeds under a condition, and fails for a long integer without it;
* `literal_succeedsIff`, `text_succeedsIff`, `display_succeedsIff` — for the three texts the condition
  is `Writable`.
-/

namespace Assay

/-! ### Computations that a long integer stops -/

/-- The computation succeeds if the condition holds, and fails for a long integer if it does not. -/
def SucceedsIff {α : Type} (r : Except Fault α) (p : Prop) : Prop :=
  (p ∧ ∃ a, r = .ok a) ∨ (¬ p ∧ r = .error .longInteger)

namespace SucceedsIff

variable {α β : Type} {r : Except Fault α} {p q : Prop}

theorem ok (a : α) : SucceedsIff (.ok a) True := Or.inl ⟨trivial, a, rfl⟩

theorem congr (h : SucceedsIff r p) (hpq : p ↔ q) : SucceedsIff r q := by
  rcases h with ⟨hp, h⟩ | ⟨hp, h⟩
  · exact Or.inl ⟨hpq.1 hp, h⟩
  · exact Or.inr ⟨mt hpq.2 hp, h⟩

/-- Two steps succeed under both conditions. -/
theorem bind {f : α → Except Fault β} (h : SucceedsIff r p) (hf : ∀ a, SucceedsIff (f a) q) :
    SucceedsIff (r >>= f) (p ∧ q) := by
  rcases h with ⟨hp, a, rfl⟩ | ⟨hp, rfl⟩
  · exact (hf a).congr (and_iff_right hp).symm
  · exact Or.inr ⟨fun hpq => hp hpq.1, rfl⟩

/-- A last step that cannot fail asks for nothing more. -/
theorem last {f : α → Except Fault β} (h : SucceedsIff r p) (hf : ∀ a, ∃ b, f a = .ok b) :
    SucceedsIff (r >>= f) p := by
  rcases h with ⟨hp, a, rfl⟩ | ⟨hp, rfl⟩
  · exact Or.inl ⟨hp, hf a⟩
  · exact Or.inr ⟨hp, rfl⟩

theorem map (h : SucceedsIff r p) (f : α → β) : SucceedsIff (r.map f) p := by
  rcases h with ⟨hp, a, rfl⟩ | ⟨hp, rfl⟩
  · exact Or.inl ⟨hp, f a, rfl⟩
  · exact Or.inr ⟨hp, rfl⟩

theorem isOk_iff (h : SucceedsIff r p) : (∃ a, r = .ok a) ↔ p := by
  rcases h with ⟨hp, h⟩ | ⟨hp, rfl⟩
  · exact iff_of_true h hp
  · exact iff_of_false (by simp) hp

theorem eq_error_iff (h : SucceedsIff r p) {f : Fault} : r = .error f ↔ ¬ p ∧ f = .longInteger := by
  rcases h with ⟨hp, a, rfl⟩ | ⟨hp, rfl⟩
  · simp [hp]
  · simp [hp, eq_comm]

end SucceedsIff

theorem integerText_succeedsIff (i : Int) : SucceedsIff (integerText i) (i.natAbs < digitBound) := by
  unfold integerText
  by_cases h : i.natAbs < digitBound
  · rw [if_pos h]
    exact Or.inl ⟨h, _, rfl⟩
  · rw [if_neg h]
    exact Or.inr ⟨h, rfl⟩

namespace Value

/-! ### What stands in a value -/

/-- `Inside x v`: the value `x` stands somewhere in `v`, keys and the contents of arrays included. -/
inductive Inside : Value → Value → Prop
  | self (v : Value) : Inside v v
  | list {x y : Value} {xs : List Value} (hy : y ∈ xs) (h : Inside x y) : Inside x (.list xs)
  | tuple {x y : Value} {xs : List Value} (hy : y ∈ xs) (h : Inside x y) : Inside x (.tuple xs)
  | key {x k y : Value} {frozen : Bool} {es : Entries} (hk : (k, y) ∈ es) (h : Inside x k) :
      Inside x (.map frozen es)
  | entry {x k y : Value} {frozen : Bool} {es : Entries} (hy : (k, y) ∈ es) (h : Inside x y) :
      Inside x (.map frozen es)
  | array {x v : Value} {e : Element} (h : Inside x v) : Inside x (.array e v)

/-- No integer inside the value has more digits than are written. -/
def Writable (v : Value) : Prop := ∀ i : Int, Inside (.int i) v → i.natAbs < digitBound

theorem writable_int {i : Int} : Writable (.int i) ↔ i.natAbs < digitBound := by
  constructor
  · intro h
    exact h i (.self _)
  · intro h j hj
    cases hj
    exact h

theorem writable_list {xs : List Value} : Writable (.list xs) ↔ ∀ x ∈ xs, Writable x := by
  constructor
  · intro h x hx i hi
    exact h i (.list hx hi)
  · intro h i hi
    cases hi with
    | list hx hi => exact h _ hx i hi

theorem writable_tuple {xs : List Value} : Writable (.tuple xs) ↔ ∀ x ∈ xs, Writable x := by
  constructor
  · intro h x hx i hi
    exact h i (.tuple hx hi)
  · intro h i hi
    cases hi with
    | tuple hx hi => exact h _ hx i hi

theorem writable_map {frozen : Bool} {es : Entries} :
    Writable (.map frozen es) ↔ ∀ e ∈ es, Writable e.1 ∧ Writable e.2 := by
  constructor
  · rintro h ⟨k, v⟩ he
    exact ⟨fun i hi => h i (.key he hi), fun i hi => h i (.entry he hi)⟩
  · intro h i hi
    cases hi with
    | key hk hi => exact (h _ hk).1 i hi
    | entry hy hi => exact (h _ hy).2 i hi

theorem writable_array {e : Element} {v : Value} : Writable (.array e v) ↔ Writable v := by
  constructor
  · intro h i hi
    exact h i (.array hi)
  · intro h i hi
    cases hi with
    | array hi => exact h i hi

/-- A value that holds nothing but itself, and is no integer, can be written. -/
theorem writable_leaf {v : Value} (h : ∀ x, Inside x v → x = v) (hv : ∀ i, v ≠ .int i) :
    Writable v := by
  intro i hi
  exact absurd (h _ hi).symm (hv i)

/-- A leaf that has its text without further work. -/
theorem leaf_succeedsIff {α : Type} {v : Value} (a : α) (h : ∀ x, Inside x v → x = v)
    (hv : ∀ i, v ≠ .int i) : SucceedsIff (.ok a) v.Writable :=
  (SucceedsIff.ok a).congr (iff_of_true trivial (writable_leaf h hv))

/-! ### Literals and plain texts -/

mutual

/-- **A value has a literal exactly if it can be written.** -/
theorem literal_succeedsIff : ∀ v : Value, SucceedsIff v.literal v.Writable
  | .int i => by
    rw [literal]
    exact (integerText_succeedsIff i).congr writable_int.symm
  | .list xs => by
    rw [literal]
    exact ((literals_succeedsIff xs).last fun ts => ⟨_, rfl⟩).congr writable_list.symm
  | .tuple xs => by
    rw [literal]
    refine ((literals_succeedsIff xs).last fun ts => ?_).congr writable_tuple.symm
    split <;> exact ⟨_, rfl⟩
  | .map frozen es => by
    rw [literal]
    exact ((entryLiterals_succeedsIff es).last fun ts => ⟨_, rfl⟩).congr writable_map.symm
  | .array e v => by
    rw [literal]
    exact ((literal_succeedsIff v).last fun t => ⟨_, rfl⟩).congr writable_array.symm
  | .absent | .null | .bool _ | .float _ | .str _ | .bytes _ | .date _ | .moment _ | .foreign _
  | .scalar _ _ => by
    rw [literal]
    exact leaf_succeedsIff _ (by rintro x ⟨⟩; rfl) (by simp)

theorem literals_succeedsIff : ∀ xs : List Value, SucceedsIff (literals xs) (∀ x ∈ xs, Writable x)
  | [] => by
    rw [literals]
    exact (SucceedsIff.ok _).congr (by simp)
  | x :: xs => by
    rw [literals]
    refine ((literal_succeedsIff x).bind fun t =>
      (literals_succeedsIff xs).last fun ts => ⟨_, rfl⟩).congr ?_
    rw [List.forall_mem_cons]

theorem entryLiterals_succeedsIff : ∀ es : Entries,
    SucceedsIff (entryLiterals es) (∀ e ∈ es, Writable e.1 ∧ Writable e.2)
  | [] => by
    rw [entryLiterals]
    exact (SucceedsIff.ok _).congr (by simp)
  | (k, v) :: es => by
    rw [entryLiterals]
    refine ((literal_succeedsIff k).bind fun kt => (literal_succeedsIff v).bind fun vt =>
      (entryLiterals_succeedsIff es).last fun ts => ⟨_, rfl⟩).congr ?_
    rw [List.forall_mem_cons, and_assoc]

end

/-- **A value has a plain text exactly if it can be written.** -/
theorem text_succeedsIff (v : Value) : SucceedsIff v.text v.Writable := by
  cases v with
  | map frozen es =>
    rw [text]
    exact (literal_succeedsIff _).congr (writable_map.trans writable_map.symm)
  | array e v =>
    rw [text]
    exact (literal_succeedsIff v).congr writable_array.symm
  | str s => exact leaf_succeedsIff _ (by rintro x ⟨⟩; rfl) (by simp)
  | date d => exact leaf_succeedsIff _ (by rintro x ⟨⟩; rfl) (by simp)
  | moment m => exact leaf_succeedsIff _ (by rintro x ⟨⟩; rfl) (by simp)
  | foreign o => exact leaf_succeedsIff _ (by rintro x ⟨⟩; rfl) (by simp)
  | scalar e i => exact leaf_succeedsIff _ (by rintro x ⟨⟩; rfl) (by simp)
  | _ => exact literal_succeedsIff _

/-! ### Displayed texts -/

theorem displayName_succeedsIff (k : Value) : SucceedsIff (displayName k) k.Writable := by
  unfold displayName
  split
  · rename_i s hs
    refine leaf_succeedsIff s ?_ ?_
    · cases k with
      | str t =>
        rintro x ⟨⟩
        rfl
      | scalar e i =>
        rintro x ⟨⟩
        rfl
      | _ => simp [unwrapped] at hs
    · rintro i rfl
      simp [unwrapped] at hs
  · exact literal_succeedsIff k

mutual

/-- A value has a displayed tree exactly if it can be written. -/
theorem displayed_succeedsIff : ∀ v : Value, SucceedsIff v.displayed v.Writable
  | .int i => by
    rw [displayed]
    exact ((integerText_succeedsIff i).map _).congr writable_int.symm
  | .list xs => by
    rw [displayed]
    exact ((displayedAll_succeedsIff xs).map _).congr writable_list.symm
  | .tuple xs => by
    rw [displayed]
    exact ((displayedAll_succeedsIff xs).map _).congr writable_tuple.symm
  | .map frozen es => by
    rw [displayed]
    exact ((displayedMembers_succeedsIff es).map _).congr writable_map.symm
  | .null | .bool _ | .float _ | .str _ => by
    rw [displayed]
    exact leaf_succeedsIff _ (by rintro x ⟨⟩; rfl) (by simp)
  | .absent => (literal_succeedsIff .absent).map _
  | .array e v => (literal_succeedsIff (.array e v)).map _
  | .bytes bs => (literal_succeedsIff (.bytes bs)).map _
  | .date d => (literal_succeedsIff (.date d)).map _
  | .moment m => (literal_succeedsIff (.moment m)).map _
  | .foreign o => (literal_succeedsIff (.foreign o)).map _
  | .scalar e i => by
    cases e <;> cases i <;> exact leaf_succeedsIff _ (by rintro x ⟨⟩; rfl) (by simp)

theorem displayedAll_succeedsIff : ∀ xs : List Value,
    SucceedsIff (displayedAll xs) (∀ x ∈ xs, Writable x)
  | [] => by
    rw [displayedAll]
    exact (SucceedsIff.ok _).congr (by simp)
  | x :: xs => by
    rw [displayedAll]
    refine ((displayed_succeedsIff x).bind fun t =>
      (displayedAll_succeedsIff xs).last fun ts => ⟨_, rfl⟩).congr ?_
    rw [List.forall_mem_cons]

theorem displayedMembers_succeedsIff : ∀ es : Entries,
    SucceedsIff (displayedMembers es) (∀ e ∈ es, Writable e.1 ∧ Writable e.2)
  | [] => by
    rw [displayedMembers]
    exact (SucceedsIff.ok _).congr (by simp)
  | (k, v) :: es => by
    rw [displayedMembers]
    refine ((displayName_succeedsIff k).bind fun name => (displayed_succeedsIff v).bind fun j =>
      (displayedMembers_succeedsIff es).last fun ms => ⟨_, rfl⟩).congr ?_
    rw [List.forall_mem_cons, and_assoc]

end

/-- **A value has a text for messages exactly if it can be written.** -/
theorem display_succeedsIff (v : Value) : SucceedsIff v.display v.Writable :=
  (displayed_succeedsIff v).map _

end Value

end Assay
