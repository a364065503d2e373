import Assay.Proofs.Value.KeySet
import Assay.Proofs.Value.Writable
import Mathlib.Data.List.Induction

/-!
# Values that a report can hold

The reported form of a value is one that JSON can say, up to integers with too many digits.  Such an
integer, in a key or inside what is told by its text, is also the only reason why a value has no
reported form.

* `Sayable` — what JSON can say, with texts as the only keys;
* `reported_cases` — a value has a sayable reported form, or it cannot be written;
* `Sayable.toJson_succeedsIff` — what is sayable has a tree exactly if it can be written.
-/

namespace Assay.Value

/-- What JSON can say, with texts as the only keys. -/
inductive Sayable : Value → Prop
  | null : Sayable .null
  | bool (b : Bool) : Sayable (.bool b)
  | int (i : Int) : Sayable (.int i)
  | float (x : Double) : Sayable (.float x)
  | str (s : String) : Sayable (.str s)
  | list {xs : List Value} (h : ∀ x ∈ xs, Sayable x) : Sayable (.list xs)
  | dict {es : Entries} (hk : ∀ e ∈ es, ∃ s, e.1 = .str s) (hv : ∀ e ∈ es, Sayable e.2) :
      Sayable (.dict es)
  | double (x : Double) : Sayable (.scalar .double (.float x))
  | text (s : String) : Sayable (.scalar .text (.str s))

/-! ### Insertion -/

theorem mem_insert {key value : Value} {es : Entries} {e : Value × Value} (h : e ∈ insert key value es) :
    (e.1 = key ∨ ∃ f ∈ es, e.1 = f.1) ∧ (e.2 = value ∨ ∃ f ∈ es, e.2 = f.2) := by
  induction es with
  | nil =>
    obtain rfl := List.mem_singleton.1 h
    exact ⟨Or.inl rfl, Or.inl rfl⟩
  | cons f es ih =>
    obtain ⟨k, v⟩ := f
    unfold insert at h
    split at h
    · rcases List.mem_cons.1 h with rfl | h
      · exact ⟨Or.inr ⟨(k, v), by simp⟩, Or.inl rfl⟩
      · exact ⟨Or.inr ⟨e, List.mem_cons_of_mem _ h, rfl⟩, Or.inr ⟨e, List.mem_cons_of_mem _ h, rfl⟩⟩
    · rcases List.mem_cons.1 h with rfl | h
      · exact ⟨Or.inr ⟨(k, v), by simp⟩, Or.inr ⟨(k, v), by simp⟩⟩
      · obtain ⟨hk, hv⟩ := ih h
        have later {P : Value × Value → Prop} (hp : ∃ f ∈ es, P f) : ∃ f ∈ (k, v) :: es, P f := by
          obtain ⟨f, hf, he⟩ := hp
          exact ⟨f, List.mem_cons_of_mem _ hf, he⟩
        exact ⟨hk.imp_right later, hv.imp_right later⟩

/-- One more pair is inserted last. -/
theorem ofPairs_append_singleton (ps : Entries) (p : Value × Value) :
    ofPairs (ps ++ [p]) = insert p.1 p.2 (ofPairs ps) := by
  rw [ofPairs, List.foldl_append]
  rfl

/-- The keys and the values that insertion leaves are among those that were inserted. -/
theorem mem_ofPairs {ps : Entries} {e : Value × Value} (h : e ∈ ofPairs ps) :
    (∃ p ∈ ps, e.1 = p.1) ∧ ∃ p ∈ ps, e.2 = p.2 := by
  induction ps using List.reverseRecOn generalizing e with
  | nil => cases h
  | append_singleton ps p ih =>
    rw [ofPairs_append_singleton] at h
    obtain ⟨hk, hv⟩ := mem_insert h
    constructor
    · rcases hk with hk | ⟨f, hf, hk⟩
      · exact ⟨p, by simp, hk⟩
      · obtain ⟨⟨q, hq, same⟩, -⟩ := ih hf
        exact ⟨q, List.mem_append_left _ hq, hk.trans same⟩
    · rcases hv with hv | ⟨f, hf, hv⟩
      · exact ⟨p, by simp, hv⟩
      · obtain ⟨-, q, hq, same⟩ := ih hf
        exact ⟨q, List.mem_append_left _ hq, hv.trans same⟩

/-! ### The reported form -/

theorem writable_str (s : String) : Writable (.str s) := writable_leaf (by rintro x ⟨⟩; rfl) (by simp)

/-- A value has a reported form, or it cannot be written. -/
def Reports (v : Value) : Prop :=
  (∃ w, v.reported = .ok w ∧ w.Sayable ∧ (v.Writable → w.Writable)) ∨
    v.reported = .error .longInteger ∧ ¬ v.Writable

/-- A value that is told by its plain text. -/
theorem reports_of_text {v : Value} (h : v.reported = v.text.map .str) : v.Reports := by
  rcases text_succeedsIff v with ⟨hw, t, ht⟩ | ⟨hw, ht⟩
  · refine Or.inl ⟨.str t, ?_, .str t, fun _ => writable_str t⟩
    rw [h, ht]
    rfl
  · refine Or.inr ⟨?_, hw⟩
    rw [h, ht]
    rfl

/-- A value that stands for itself. -/
theorem reports_of_self {v : Value} (h : v.reported = .ok v) (hs : v.Sayable) : v.Reports :=
  Or.inl ⟨v, h, hs, id⟩

theorem reports_double {v : Value} {x : Double}
    (h : v.reported = .ok (if x.isFinite then v else .str (Layout.plain.text x))) (hs : v.Sayable) :
    v.Reports := by
  by_cases finite : x.isFinite = true
  · exact reports_of_self (by rw [h, if_pos finite]) hs
  · exact Or.inl ⟨_, by rw [h, if_neg finite], .str _, fun _ => writable_str _⟩

/-- The reported forms of a sequence. -/
theorem reportedAll_cases {xs : List Value} (h : ∀ x ∈ xs, x.Reports) :
    (∃ ys, reportedAll xs = .ok ys ∧ (∀ y ∈ ys, y.Sayable) ∧
        ((∀ x ∈ xs, x.Writable) → ∀ y ∈ ys, y.Writable)) ∨
      reportedAll xs = .error .longInteger ∧ ¬ ∀ x ∈ xs, x.Writable := by
  induction xs with
  | nil => exact Or.inl ⟨[], rfl, by simp, by simp⟩
  | cons x xs ih =>
    rw [List.forall_mem_cons] at h
    rw [reportedAll, List.forall_mem_cons]
    rcases h.1 with ⟨y, hy, say, write⟩ | ⟨hy, long⟩
    · rw [hy]
      rcases ih h.2 with ⟨ys, hys, said, writes⟩ | ⟨hys, long⟩
      · rw [hys]
        refine Or.inl ⟨y :: ys, rfl, ?_, ?_⟩
        · exact List.forall_mem_cons.2 ⟨say, said⟩
        · exact fun hw => List.forall_mem_cons.2 ⟨write hw.1, writes hw.2⟩
      · rw [hys]
        exact Or.inr ⟨rfl, fun hw => long hw.2⟩
    · rw [hy]
      exact Or.inr ⟨rfl, fun hw => long hw.1⟩

/-- The reported forms of entries: the plain text of each key, and the reported form of each value. -/
theorem reportedEntries_cases {es : Entries} (h : ∀ e ∈ es, e.2.Reports) :
    (∃ fs, reportedEntries es = .ok fs ∧ (∀ f ∈ fs, (∃ s, f.1 = .str s) ∧ f.2.Sayable) ∧
        ((∀ e ∈ es, e.1.Writable ∧ e.2.Writable) → ∀ f ∈ fs, f.2.Writable)) ∨
      reportedEntries es = .error .longInteger ∧ ¬ ∀ e ∈ es, e.1.Writable ∧ e.2.Writable := by
  induction es with
  | nil => exact Or.inl ⟨[], rfl, by simp, by simp⟩
  | cons e es ih =>
    obtain ⟨k, v⟩ := e
    rw [List.forall_mem_cons] at h
    rw [reportedEntries, List.forall_mem_cons]
    rcases text_succeedsIff k with ⟨-, t, ht⟩ | ⟨long, ht⟩
    · rw [ht]
      rcases h.1 with ⟨w, hw, say, write⟩ | ⟨hw, long⟩
      · rw [hw]
        rcases ih h.2 with ⟨fs, hfs, said, writes⟩ | ⟨hfs, long⟩
        · rw [hfs]
          refine Or.inl ⟨(.str t, w) :: fs, rfl, ?_, ?_⟩
          · exact List.forall_mem_cons.2 ⟨⟨⟨t, rfl⟩, say⟩, said⟩
          · exact fun hw => List.forall_mem_cons.2 ⟨write hw.1.2, writes hw.2⟩
        · rw [hfs]
          exact Or.inr ⟨rfl, fun hw => long hw.2⟩
      · rw [hw]
        exact Or.inr ⟨rfl, fun hw => long hw.1.2⟩
    · rw [ht]
      exact Or.inr ⟨rfl, fun hw => long hw.1.1⟩

theorem reports_list {v : Value} {xs : List Value} (h : v.reported = (reportedAll xs).map .list)
    (hw : v.Writable ↔ ∀ x ∈ xs, x.Writable) (hx : ∀ x ∈ xs, x.Reports) : v.Reports := by
  rcases reportedAll_cases hx with ⟨ys, hys, said, writes⟩ | ⟨hys, long⟩
  · refine Or.inl ⟨.list ys, by rw [h, hys]; rfl, .list said, fun writable => ?_⟩
    exact writable_list.2 (writes (hw.1 writable))
  · exact Or.inr ⟨by rw [h, hys]; rfl, mt hw.1 long⟩

mutual

/-- **A value has a sayable reported form, or it cannot be written.**  What can be written is reported as
something that can be. -/
theorem reported_cases : ∀ v : Value, v.Reports
  | .null => reports_of_self rfl .null
  | .bool b => reports_of_self rfl (.bool b)
  | .int i => reports_of_self rfl (.int i)
  | .str s => reports_of_self rfl (.str s)
  | .float x => reports_double (x := x) (by rw [reported]) (.float x)
  | .list xs => reports_list (by rw [reported]) writable_list (forall_reports xs)
  | .tuple xs => reports_list (by rw [reported]) writable_tuple (forall_reports xs)
  | .map false es => by
    rcases reportedEntries_cases (forall_entries_report es) with ⟨fs, hfs, said, writes⟩ | ⟨hfs, long⟩
    · refine Or.inl ⟨.dict (ofPairs fs), by rw [reported, hfs]; rfl, .dict ?_ ?_, fun hw => ?_⟩
      · intro e he
        obtain ⟨⟨f, hf, same⟩, -⟩ := mem_ofPairs he
        exact same ▸ (said f hf).1
      · intro e he
        obtain ⟨-, f, hf, same⟩ := mem_ofPairs he
        exact same ▸ (said f hf).2
      · refine writable_map.2 fun e he => ?_
        obtain ⟨⟨f, hf, key⟩, g, hg, value⟩ := mem_ofPairs he
        obtain ⟨s, hs⟩ := (said f hf).1
        exact ⟨(key.trans hs) ▸ writable_str s, value ▸ writes (writable_map.1 hw) g hg⟩
    · exact Or.inr ⟨by rw [reported, hfs]; rfl, mt writable_map.1 long⟩
  | .map true es => reports_of_text rfl
  | .absent => reports_of_text rfl
  | .bytes bs => reports_of_text rfl
  | .date d => reports_of_text rfl
  | .moment m => reports_of_text rfl
  | .foreign o => reports_of_text rfl
  | .array e v => reports_of_text rfl
  | .scalar e item => by
    cases e with
    | double =>
      cases item with
      | float x => exact reports_double (x := x) (by rw [reported]) (.double x)
      | _ => exact reports_of_text rfl
    | text =>
      cases item with
      | str s => exact reports_of_self rfl (.text s)
      | _ => exact reports_of_text rfl
    | _ => exact reports_of_text (by cases item <;> rfl)

theorem forall_reports : ∀ xs : List Value, ∀ x ∈ xs, x.Reports
  | [] => nofun
  | x :: xs => List.forall_mem_cons.2 ⟨reported_cases x, forall_reports xs⟩

theorem forall_entries_report : ∀ es : Entries, ∀ e ∈ es, e.2.Reports
  | [] => nofun
  | (_, v) :: es => List.forall_mem_cons.2 ⟨reported_cases v, forall_entries_report es⟩

end

/-! ### Trees -/

theorem toJsonAll_succeedsIff {xs : List Value} (h : ∀ x ∈ xs, SucceedsIff x.toJson x.Writable) :
    SucceedsIff (toJsonAll xs) (∀ x ∈ xs, x.Writable) := by
  induction xs with
  | nil => exact (SucceedsIff.ok _).congr (by simp)
  | cons x xs ih =>
    rw [List.forall_mem_cons] at h
    rw [toJsonAll]
    refine (h.1.bind fun j => (ih h.2).last fun js => ⟨_, rfl⟩).congr ?_
    rw [List.forall_mem_cons]

theorem toJsonMembers_succeedsIff {es : Entries} (hk : ∀ e ∈ es, ∃ s, e.1 = .str s)
    (hv : ∀ e ∈ es, SucceedsIff e.2.toJson e.2.Writable) :
    SucceedsIff (toJsonMembers es) (∀ e ∈ es, e.2.Writable) := by
  induction es with
  | nil => exact (SucceedsIff.ok _).congr (by simp)
  | cons e es ih =>
    obtain ⟨k, v⟩ := e
    rw [List.forall_mem_cons] at hk hv
    obtain ⟨⟨s, rfl⟩, hk⟩ := hk
    rw [toJsonMembers, keyName_str]
    refine (hv.1.bind fun j => (ih hk hv.2).last fun ms => ⟨_, rfl⟩).congr ?_
    rw [List.forall_mem_cons]

/-- **What is sayable has a tree exactly if it can be written.** -/
theorem Sayable.toJson_succeedsIff {v : Value} (h : v.Sayable) : SucceedsIff v.toJson v.Writable := by
  induction h with
  | int i =>
    rw [toJson]
    exact ((integerText_succeedsIff i).map _).congr writable_int.symm
  | list _ ih =>
    rw [toJson]
    exact ((toJsonAll_succeedsIff ih).map _).congr writable_list.symm
  | @dict es hk _ ih =>
    rw [toJson]
    refine ((toJsonMembers_succeedsIff hk ih).map _).congr ?_
    rw [writable_map]
    refine forall₂_congr fun e he => ?_
    obtain ⟨s, hs⟩ := hk e he
    exact (and_iff_right (hs ▸ writable_str s)).symm
  | _ => exact leaf_succeedsIff _ (by rintro x ⟨⟩; rfl) (by simp)

end Assay.Value
