import Assay.Proofs.Json.Strict
import Assay.Proofs.Related
import Assay.Proofs.Value.Canonical
import Assay.Proofs.Value.Normal
import Assay.Proofs.Value.Reported
import Assay.Proofs.Value.RoundTrip

/-!
# Settled values

A reported form is settled: reporting it again changes nothing.  It says no more than JSON can say, with
finite floats and pairwise different texts for keys, so that its tree is read as what it is.

* `reportedAll_eq_ok`, `reportedEntries_eq_ok` — one step of the reported form;
* `distinctKeys_ofPairs` — keys are pairwise different after insertion;
* `reportedAs_of_reported` — the four ways in which a value is reported;
* `settled_of_reported` — a reported form is settled;
* `Settled.reported` — a settled value is its own reported form;
* `Settled.toValue` — its tree stands for the value without wrapping, and has finite floats only.
-/

namespace Assay.Value

/-! ### Keys after insertion -/

theorem distinctKeys_insert {key value : Value} {es : Entries} (h : DistinctKeys es) :
    DistinctKeys (insert key value es) := by
  induction es with
  | nil => exact List.pairwise_singleton _ _
  | cons e es ih =>
    obtain ⟨k, v⟩ := e
    obtain ⟨apart, rest⟩ := List.pairwise_cons.1 h
    rw [insert]
    by_cases same : sameKey k key = true
    · rw [if_pos same]
      exact List.pairwise_cons.2 ⟨apart, rest⟩
    · rw [if_neg same]
      refine List.pairwise_cons.2 ⟨?_, ih rest⟩
      intro e he
      rcases (mem_insert he).1 with hk | ⟨f, hf, hk⟩
      · rw [hk]
        exact Bool.eq_false_iff.2 same
      · rw [hk]
        exact apart f hf

/-- Keys are pairwise different after insertion. -/
theorem distinctKeys_ofPairs (ps : Entries) : DistinctKeys (ofPairs ps) := by
  induction ps using List.reverseRecOn with
  | nil => exact List.Pairwise.nil
  | append_singleton ps p ih =>
    rw [ofPairs_append_singleton]
    exact distinctKeys_insert ih

/-- Texts stay the only keys. -/
theorem keys_ofPairs {fs : Entries} (hk : ∀ f ∈ fs, ∃ s, f.1 = .str s) :
    ∀ f ∈ ofPairs fs, ∃ s, f.1 = .str s := by
  intro f hf
  obtain ⟨⟨g, hg, key⟩, -⟩ := mem_ofPairs hf
  exact key ▸ hk g hg

/-! ### One step -/

/-- The reported forms of a sequence are those of its items. -/
theorem reportedAll_eq_ok {xs ys : List Value} :
    reportedAll xs = .ok ys ↔ List.Forall₂ (fun x y => x.reported = .ok y) xs ys := by
  constructor
  · intro h
    induction xs generalizing ys with
    | nil =>
      cases h
      exact .nil
    | cons x xs ih =>
      rw [reportedAll] at h
      obtain ⟨y, hy, h⟩ := bind_eq_ok_iff.1 h
      obtain ⟨ys, hys, ⟨⟩⟩ := bind_eq_ok_iff.1 h
      exact .cons hy (ih hys)
  · intro h
    induction h with
    | nil => rfl
    | cons hy _ ih =>
      rw [reportedAll, hy, ih]
      rfl

/-- An entry is reported under the text of its key. -/
def EntryReported (e f : Value × Value) : Prop :=
  ∃ t, e.1.text = .ok t ∧ f.1 = .str t ∧ e.2.reported = .ok f.2

theorem reportedEntries_eq_ok {es fs : Entries} :
    reportedEntries es = .ok fs ↔ List.Forall₂ EntryReported es fs := by
  constructor
  · intro h
    induction es generalizing fs with
    | nil =>
      cases h
      exact .nil
    | cons e es ih =>
      obtain ⟨k, v⟩ := e
      rw [reportedEntries] at h
      obtain ⟨t, ht, h⟩ := bind_eq_ok_iff.1 h
      obtain ⟨w, hw, h⟩ := bind_eq_ok_iff.1 h
      obtain ⟨fs, hfs, ⟨⟩⟩ := bind_eq_ok_iff.1 h
      exact .cons ⟨t, ht, rfl, hw⟩ (ih hfs)
  · intro h
    induction h with
    | nil => rfl
    | @cons e f es fs he _ ih =>
      obtain ⟨k, v⟩ := e
      obtain ⟨l, w⟩ := f
      obtain ⟨t, ht, rfl, hw⟩ := he
      rw [reportedEntries, ht, hw, ih]
      rfl

/-- The reported form of a sequence. -/
theorem reported_of_items {v r : Value} {xs : List Value} (hx : v.items? = some xs)
    (h : v.reported = .ok r) :
    ∃ ys, r = .list ys ∧ List.Forall₂ (fun x y => x.reported = .ok y) xs ys := by
  have all : (reportedAll xs).map Value.list = .ok r := by
    rcases items?_eq_some hx with rfl | rfl <;> exact h
  obtain ⟨ys, hys, rfl⟩ := map_eq_ok_iff.1 all
  exact ⟨ys, rfl, reportedAll_eq_ok.1 hys⟩

/-- The reported form of a mapping that can be changed. -/
theorem reported_dict {es : Entries} {r : Value} (h : (Value.dict es).reported = .ok r) :
    ∃ fs, r = .dict (ofPairs fs) ∧ List.Forall₂ EntryReported es fs := by
  obtain ⟨fs, hfs, rfl⟩ := map_eq_ok_iff.1 h
  exact ⟨fs, rfl, reportedEntries_eq_ok.1 hfs⟩

/-! ### Settled values -/

/-- What JSON can say, with finite floats and pairwise different texts for keys. -/
inductive Settled : Value → Prop
  | null : Settled .null
  | bool (b : Bool) : Settled (.bool b)
  | int (i : Int) : Settled (.int i)
  | float {x : Double} (hx : x.isFinite = true) : Settled (.float x)
  | str (s : String) : Settled (.str s)
  | list {xs : List Value} (h : ∀ x ∈ xs, Settled x) : Settled (.list xs)
  | dict {es : Entries} (hk : ∀ e ∈ es, ∃ s, e.1 = .str s) (hd : DistinctKeys es)
      (hv : ∀ e ∈ es, Settled e.2) : Settled (.dict es)
  | double {x : Double} (hx : x.isFinite = true) : Settled (.scalar .double (.float x))
  | text (s : String) : Settled (.scalar .text (.str s))

theorem Settled.sayable {r : Value} (h : r.Settled) : r.Sayable := by
  induction h with
  | null => exact .null
  | bool b => exact .bool b
  | int i => exact .int i
  | float => exact .float _
  | str s => exact .str s
  | list _ ih => exact .list ih
  | dict hk _ _ ih => exact .dict hk ih
  | double => exact .double _
  | text s => exact .text s

/-- How a value is reported: item by item, entry by entry, by its text, or as it is. -/
inductive ReportedAs : Value → Value → Prop
  | sequence {v : Value} {xs ys : List Value} (hx : v.items? = some xs)
      (all : List.Forall₂ (fun x y => x.reported = .ok y) xs ys) : ReportedAs v (.list ys)
  | mapping {es fs : Entries} (all : List.Forall₂ EntryReported es fs) :
      ReportedAs (.dict es) (.dict (ofPairs fs))
  | text (v : Value) (t : String) : ReportedAs v (.str t)
  | itself {v : Value} (hs : v.Settled) (hn : v.unwrapped.normalized = v.unwrapped) : ReportedAs v v

theorem reportedAs_of_reported {v r : Value} (h : v.reported = .ok r) : ReportedAs v r := by
  have told (ht : v.reported = v.text.map .str) : ReportedAs v r := by
    rw [ht] at h
    obtain ⟨t, -, rfl⟩ := map_eq_ok_iff.1 h
    exact .text v t
  have itself (hv : v.reported = .ok v) (hs : v.Settled)
      (hn : v.unwrapped.normalized = v.unwrapped) : ReportedAs v r := by
    obtain rfl := Except.ok.inj (hv.symm.trans h)
    exact .itself hs hn
  have double {x : Double}
      (hx : v.reported = .ok (if x.isFinite then v else .str (Layout.plain.text x)))
      (hs : x.isFinite = true → v.Settled) (hn : v.unwrapped.normalized = v.unwrapped) :
      ReportedAs v r := by
    by_cases finite : x.isFinite = true
    · exact itself (by rw [hx, if_pos finite]) (hs finite) hn
    · rw [hx, if_neg finite] at h
      cases h
      exact .text v _
  have sequence {xs : List Value} (hx : v.items? = some xs) : ReportedAs v r := by
    obtain ⟨ys, rfl, all⟩ := reported_of_items hx h
    exact .sequence hx all
  cases v with
  | list xs => exact sequence rfl
  | tuple xs => exact sequence rfl
  | map frozen es =>
    cases frozen with
    | true => exact told rfl
    | false =>
      obtain ⟨fs, rfl, all⟩ := reported_dict h
      exact .mapping all
  | float x => exact double (by rw [Value.reported]) .float rfl
  | scalar e i =>
    cases e with
    | double =>
      cases i with
      | float x => exact double (by rw [Value.reported]) .double rfl
      | _ => exact told rfl
    | text =>
      cases i with
      | str s => exact itself rfl (.text s) rfl
      | _ => exact told rfl
    | _ => exact told (by cases i <;> rfl)
  | null => exact itself rfl .null rfl
  | bool b => exact itself rfl (.bool b) rfl
  | int i => exact itself rfl (.int i) rfl
  | str s => exact itself rfl (.str s) rfl
  | _ => exact told rfl

/-- The parts of a sequence and of a mapping are looked for in themselves. -/
theorem mem_parts_of_items {v x : Value} {xs : List Value} (hx : v.items? = some xs) (h : x ∈ xs) :
    x ∈ v.opened.parts := by
  rcases items?_eq_some hx with rfl | rfl <;> exact h

/-- **A reported form is settled.** -/
theorem settled_of_reported {v r : Value} (h : v.reported = .ok r) : r.Settled := by
  induction v using parts_induction generalizing r with
  | step v ih =>
    cases reportedAs_of_reported h with
    | sequence hx all =>
      refine .list fun y hy => ?_
      obtain ⟨x, hm, hxy⟩ := exists_mem_left all hy
      exact ih x (mem_parts_of_items hx hm) hxy
    | @mapping es fs all =>
      have entries : ∀ f ∈ fs, (∃ s, f.1 = .str s) ∧ f.2.Settled := by
        intro f hf
        obtain ⟨e, he, t, -, hk, hw⟩ := exists_mem_left all hf
        exact ⟨⟨t, hk⟩, ih e.2 (List.mem_map_of_mem he) hw⟩
      refine .dict (keys_ofPairs fun f hf => (entries f hf).1) (distinctKeys_ofPairs fs) ?_
      intro e he
      obtain ⟨-, f, hf, value⟩ := mem_ofPairs he
      exact value ▸ (entries f hf).2
    | text _ t => exact .str t
    | itself hs _ => exact hs

/-- No float and no text of a value is wrapped in a scalar. -/
def Unwrapped (v : Value) : Prop := Everywhere (fun x => x.unwrapped = x) v

theorem unwrapped_everywhere_normalized (v : Value) : Unwrapped v.normalized := by
  intro p y hy
  rw [at?_normalized] at hy
  obtain ⟨x, -, rfl⟩ := Option.map_eq_some_iff.1 hy
  exact unwrapped_normalized x

/-- The reported form of a value without wrapping has none. -/
theorem normalized_of_reported {v r : Value} (h : v.reported = .ok r) (hv : Unwrapped v) :
    r.normalized = r := by
  induction v using parts_induction generalizing r with
  | step v ih =>
    cases reportedAs_of_reported h with
    | @sequence _ xs ys hx all =>
      have each : ∀ y ∈ ys, y.normalized = id y := by
        intro y hy
        obtain ⟨x, hm, hxy⟩ := exists_mem_left all hy
        have part := mem_parts_of_items hx hm
        exact ih x part hxy (hv.part part)
      rw [normalized, normalizedAll_eq_map, List.map_congr_left each, List.map_id]
    | @mapping es fs all =>
      have each : ∀ f ∈ ofPairs fs, (f.1, f.2.normalized) = id f := by
        intro f hf
        obtain ⟨-, g, hg, value⟩ := mem_ofPairs hf
        obtain ⟨e, he, t, -, -, hw⟩ := exists_mem_left all hg
        have part : e.2 ∈ (Value.dict es).opened.parts := List.mem_map_of_mem he
        rw [value, ih e.2 part hw (hv.part part), ← value]
        rfl
      rw [normalized, normalizedEntries_eq_map, List.map_congr_left each, List.map_id]
    | text => rfl
    | itself _ hn =>
      have self : v.unwrapped = v := hv.here
      rwa [self] at hn

/-- **A settled value is its own reported form.** -/
theorem Settled.reported {r : Value} (h : r.Settled) : r.reported = .ok r := by
  induction h with
  | float hx => rw [Value.reported, if_pos hx]
  | double hx => rw [Value.reported, if_pos hx]
  | @list xs _ ih =>
    have all : reportedAll xs = .ok xs := reportedAll_eq_ok.2 (List.forall₂_same.2 ih)
    rw [Value.reported, all]
    rfl
  | @dict es hk hd _ ih =>
    have all : reportedEntries es = .ok es := by
      refine reportedEntries_eq_ok.2 (List.forall₂_same.2 fun e he => ?_)
      obtain ⟨s, hs⟩ := hk e he
      exact ⟨s, by rw [hs, text_str], hs, ih e he⟩
    rw [Value.reported, all]
    exact congrArg (fun fs => Except.ok (Value.dict fs)) (ofPairs_of_distinct hd)
  | _ => rfl

/-! ### Trees -/

theorem itemsFinite_of_forall {js : List Json} (h : ∀ j ∈ js, j.FloatsFinite) : Json.ItemsFinite js := by
  induction js with
  | nil => exact True.intro
  | cons j js ih =>
    rw [List.forall_mem_cons] at h
    exact ⟨h.1, ih h.2⟩

theorem membersFinite_of_forall {ms : List (String × Json)} (h : ∀ m ∈ ms, m.2.FloatsFinite) :
    Json.MembersFinite ms := by
  induction ms with
  | nil => exact True.intro
  | cons m ms ih =>
    rw [List.forall_mem_cons] at h
    exact ⟨h.1, ih h.2⟩

/-- **The tree of a settled value stands for it**, without the wrapping of scalars, and its floats are
finite. -/
theorem Settled.toValue {r : Value} (h : r.Settled) {j : Json} (hj : r.toJson = .ok j) :
    j.toValue = r.normalized ∧ j.FloatsFinite := by
  induction h generalizing j with
  | int i =>
    rw [toJson] at hj
    obtain ⟨t, -, rfl⟩ := map_eq_ok_iff.1 hj
    exact ⟨rfl, True.intro⟩
  | float hx =>
    cases hj
    rw [Double.unmarked_of_isFinite hx]
    exact ⟨rfl, hx⟩
  | double hx =>
    cases hj
    rw [Double.unmarked_of_isFinite hx]
    exact ⟨rfl, hx⟩
  | @list xs _ ih =>
    obtain ⟨js, hjs, rfl⟩ := map_eq_ok_iff.1 hj
    have all := toJsonAll_eq_ok hjs
    have each : List.Forall₂ (fun x j => x.normalized = j.toValue) xs js :=
      forall₂_imp_of_mem all fun x j hx hj => (ih x hx hj).1.symm
    refine ⟨?_, itemsFinite_of_forall fun j hj => ?_⟩
    · rw [Json.toValue, Json.toValues_eq_map, normalized, normalizedAll_eq_map]
      exact congrArg Value.list (map_eq_map_of_forall₂ each).symm
    · obtain ⟨x, hx, hxj⟩ := exists_mem_left all hj
      exact (ih x hx hxj).2
  | @dict es hk hd _ ih =>
    obtain ⟨ms, hms, rfl⟩ := map_eq_ok_iff.1 hj
    have all := toJsonMembers_eq_ok hms
    have each : List.Forall₂ (fun e m => (e.1, e.2.normalized) = (.str m.1, m.2.toValue)) es ms := by
      refine forall₂_imp_of_mem all fun e m he hm => ?_
      obtain ⟨s, hs⟩ := hk e he
      have name : s = m.1 := Except.ok.inj (by rw [← keyName_str, ← hs, hm.1])
      rw [hs, name, (ih e he hm.2).1]
    have distinct : DistinctKeys (es.map fun e => (e.1, e.2.normalized)) := List.pairwise_map.2 hd
    refine ⟨?_, membersFinite_of_forall fun m hm => ?_⟩
    · rw [Json.toValue, Json.toPairs_eq_map, ← map_eq_map_of_forall₂ each, ofPairs_of_distinct distinct,
        normalized, normalizedEntries_eq_map]
    · obtain ⟨e, he, -, hem⟩ := exists_mem_left all hm
      exact (ih e he hem).2
  | _ =>
    cases hj
    exact ⟨rfl, True.intro⟩

end Assay.Value
