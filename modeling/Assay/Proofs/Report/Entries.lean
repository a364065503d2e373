import Assay.Proofs.Report.Standing

/-!
# The entries of a mapping in a report

An object of a report has one member for each text that the keys of a mapping have.  Two keys with one text,
such as null and the text `None`, are told by one member, which holds the value of the later one.

* `length_ofPairs_eq_iff` — as many entries are left as were inserted exactly if their keys differ;
* `TextsDiffer` — no two keys of a mapping have one text;
* `TellsEntries` — what an object tells of a mapping, and when it loses none of its entries;
* `entries_of_record` — so does every object in the record of a verdict;
* `entries_merged` — an entry is lost.
-/

namespace Assay

open Value (Entries DistinctKeys EntryTold LastOfText Stands ofPairs hasKey sameKey)

namespace Value

/-! ### How many entries are left -/

theorem length_insert (key value : Value) (es : Entries) :
    (insert key value es).length = if hasKey key es then es.length else es.length + 1 := by
  have keys := congrArg List.length (insert_keys key value es)
  rw [List.length_map] at keys
  rw [keys]
  split <;> simp

theorem length_ofPairs_le (ps : Entries) : (ofPairs ps).length ≤ ps.length := by
  induction ps using List.reverseRecOn with
  | nil => exact Nat.le_refl 0
  | append_singleton ps p ih =>
    rw [ofPairs_append_singleton, length_insert, List.length_append, List.length_singleton]
    split <;> omega

/-- **As many entries are left as were inserted exactly if their keys are pairwise different.** -/
theorem length_ofPairs_eq_iff {ps : Entries} : (ofPairs ps).length = ps.length ↔ DistinctKeys ps := by
  constructor
  · intro h
    induction ps using List.reverseRecOn with
    | nil => exact List.Pairwise.nil
    | append_singleton ps p ih =>
      have bound := length_ofPairs_le ps
      rw [ofPairs_append_singleton, length_insert, List.length_append, List.length_singleton] at h
      have fresh : hasKey p.1 (ofPairs ps) = false := by
        rw [Bool.eq_false_iff]
        intro present
        rw [if_pos present] at h
        omega
      rw [fresh, if_neg Bool.false_ne_true] at h
      have distinct : DistinctKeys ps := ih (by omega)
      rw [ofPairs_of_distinct distinct, hasKey, List.any_eq_false] at fresh
      refine List.pairwise_append.2 ⟨distinct, List.pairwise_singleton _ _, ?_⟩
      intro e he f hf
      cases List.mem_singleton.1 hf
      exact Bool.eq_false_iff.2 (fresh e he)
  · intro h
    rw [ofPairs_of_distinct h]

/-! ### Texts of keys -/

/-- No two entries have keys with one text. -/
def TextsDiffer (es : Entries) : Prop := es.Pairwise fun e f => e.1.text ≠ f.1.text

/-- A text that some key has is that of a last entry. -/
theorem exists_lastOfText {t : String} {es : Entries} {e : Value × Value} (he : e ∈ es)
    (ht : e.1.text = .ok t) : ∃ f, LastOfText t f es := by
  induction es using List.reverseRecOn with
  | nil => cases he
  | append_singleton es p ih =>
    by_cases last : p.1.text = .ok t
    · exact ⟨p, lastOfText_append_singleton.2 ⟨last, Or.inl rfl⟩⟩
    · rcases List.mem_append.1 he with he | he
      · obtain ⟨f, hf⟩ := ih he
        exact ⟨f, lastOfText_append_singleton.2 ⟨hf.1, Or.inr ⟨last, hf⟩⟩⟩
      · cases List.mem_singleton.1 he
        exact absurd ht last

/-- Entries with one text are one entry, where texts differ. -/
theorem TextsDiffer.eq {es : Entries} (h : TextsDiffer es) {e f : Value × Value} (he : e ∈ es)
    (hf : f ∈ es) (same : e.1.text = f.1.text) : e = f := by
  by_contra different
  have : Std.Symm fun e f : Value × Value => e.1.text ≠ f.1.text := ⟨fun _ _ => Ne.symm⟩
  exact h.forall he hf different same

/-- Keys have pairwise different texts exactly if the keys that tell them are pairwise different. -/
theorem textsDiffer_iff {es gs : Entries} (h : List.Forall₂ EntryTold es gs) :
    TextsDiffer es ↔ DistinctKeys gs := by
  have apart_iff {e g e' g' : Value × Value} (hg : EntryTold e g) (hg' : EntryTold e' g') :
      e.1.text ≠ e'.1.text ↔ sameKey g.1 g'.1 = false := by
    obtain ⟨s, hs, key, -⟩ := hg
    obtain ⟨s', hs', key', -⟩ := hg'
    have text : e.1.text = .ok s := hs
    have text' : e'.1.text = .ok s' := hs'
    rw [text, text', key, key', sameKey_str, beq_eq_false_iff_ne, ne_eq, Except.ok.injEq]
  induction h with
  | nil => exact iff_of_true List.Pairwise.nil List.Pairwise.nil
  | @cons e g es gs hg rest ih =>
    rw [TextsDiffer, DistinctKeys, List.pairwise_cons, List.pairwise_cons]
    refine and_congr ?_ ih
    constructor
    · intro apart g' hg'
      obtain ⟨e', he', told⟩ := exists_mem_left rest hg'
      exact (apart_iff hg told).1 (apart e' he')
    · intro apart e' he'
      obtain ⟨g', hg', told⟩ := exists_mem_right rest he'
      exact (apart_iff hg told).2 (apart g' hg')

/-! ### What an object tells of a mapping -/

/-- What an object with the members `fs`, in a report `r` of `v`, tells of the mapping with the entries `es`
in whose place it stands. -/
structure TellsEntries (v r : Value) (es fs : Entries) : Prop where
  /-- Members are named by texts, and no two by the same. -/
  names : (∀ f ∈ fs, ∃ t, f.1 = .str t) ∧ DistinctKeys fs
  /-- There is a member for each text of a key. -/
  texts : ∀ t, (∃ w, (.str t, w) ∈ fs) ↔ ∃ e ∈ es, e.1.text = .ok t
  /-- It holds what is told of the last entry of the text. -/
  last : ∀ t w, (.str t, w) ∈ fs → ∃ e, LastOfText t e es ∧ Stands v r e.2 w
  /-- There are as many members as entries exactly if the texts differ. -/
  whole : fs.length = es.length ↔ TextsDiffer es
  /-- Then every entry is told, in its place. -/
  each : TextsDiffer es → List.Forall₂
    (fun e f => ∃ t, e.1.text = .ok t ∧ f.1 = .str t ∧ Stands v r e.2 f.2) es fs

/-- **What an object in the place of a mapping tells of its entries.** -/
theorem tellsEntries_of_stands {v r x y : Value} {es : Entries} (hr : v.normalized.reported = .ok r)
    (h : Stands v r x y) (hx : x.opened.entries? = some es) :
    ∃ fs, y = .dict fs ∧ TellsEntries v r es fs := by
  obtain ⟨gs, rfl, all⟩ := exists_told hx (reported_of_stands hr h)
  have names := keys_told all
  have member {t : String} {e : Value × Value} (he : LastOfText t e es) :
      ∃ w, (.str t, w) ∈ ofPairs gs ∧ e.2.normalized.reported = .ok w ∧ Stands v r e.2 w := by
    obtain ⟨w, last, hw⟩ := he.exists_told all
    have found := (mem_ofPairs_iff names).2 last
    exact ⟨w, found, hw, .entry h hx he found⟩
  have last : ∀ t w, (.str t, w) ∈ ofPairs gs → ∃ e, LastOfText t e es ∧ Stands v r e.2 w := by
    intro t w found
    obtain ⟨e, he, -⟩ := ((mem_ofPairs_iff names).1 found).exists_entry all
    exact ⟨e, he, .entry h hx he found⟩
  refine ⟨_, rfl, ⟨keys_ofPairs names, distinctKeys_ofPairs gs⟩, ?_, last, ?_, ?_⟩
  · intro t
    constructor
    · rintro ⟨w, found⟩
      obtain ⟨e, he, -⟩ := last t w found
      exact ⟨e, he.mem, he.1⟩
    · rintro ⟨e, he, ht⟩
      obtain ⟨f, hf⟩ := exists_lastOfText he ht
      obtain ⟨w, found, -, -⟩ := member hf
      exact ⟨w, found⟩
  · rw [all.length_eq, length_ofPairs_eq_iff, textsDiffer_iff all]
  · intro differ
    rw [ofPairs_of_distinct ((textsDiffer_iff all).1 differ)]
    refine forall₂_imp_of_mem all ?_
    rintro e f he ⟨t, ht, key, hw⟩
    obtain ⟨e', he'⟩ := exists_lastOfText he ht
    obtain rfl := differ.eq he he'.mem (ht.trans he'.1.symm)
    obtain ⟨w, -, hw', stands⟩ := member he'
    cases hw'.symm.trans hw
    exact ⟨t, ht, key, stands⟩

end Value

namespace Evaluation

open Report (Record)

/-- **Entries of mappings in a record.**  Wherever the actual value of a verdict has a mapping, its record has
an object with one member for each text of a key, in which the last entry of that text is told.  There are as
many members as entries, and every entry is told, exactly if no two keys have one text. -/
theorem entries_of_record {σ : Type} {ops : Operations σ} {h : Held σ} {s : σ} {verdict : Verdict}
    {record : Record} {r : Value} (he : (ofHeld ops h s).result = .ok verdict)
    (hr : Record.ofVerdict verdict = .ok record) (ha : record.actual = some r) :
    ∃ a, verdict.actual = some a ∧ a.reported = .ok r ∧ ∀ x y es, Stands a r x y →
      x.opened.entries? = some es → ∃ fs, y = .dict fs ∧ Value.TellsEntries a r es fs := by
  obtain ⟨out, -, actual, reported⟩ := exists_returned_of_record he hr ha
  refine ⟨out.normalized, actual, reported, ?_⟩
  intro x y es stands hx
  rw [← Value.normalized_normalized] at reported
  exact Value.tellsEntries_of_stands reported stands hx

/-- The record of a verdict that a case passes, with the reported form of the actual value. -/
def passedRecord (r : Value) : Record :=
  ⟨"t", ["g", "t"], "probe", .pass, .str "deep", .bool true, none, none, some r⟩

/-- A mapping with the keys null and `a` is told whole. -/
theorem entries_of_record_whole :
    let es : Entries := [(.null, .str "x"), (.str "a", .str "y")]
    let fs : Entries := [(.str "None", .str "x"), (.str "a", .str "y")]
    let verdict : Verdict := ⟨differs, .pass, none, some (.dict es), none⟩
    (ofHeld (returning (.dict es)) (.still differs) ()).result = .ok verdict ∧
      Record.ofVerdict verdict = .ok (passedRecord (.dict fs)) ∧
        Value.TellsEntries (.dict es) (.dict fs) es fs ∧ Value.TextsDiffer es := by
  intro es fs verdict
  have result : (ofHeld (returning (.dict es)) (.still differs) ()).result = .ok verdict := rfl
  have told : Record.ofVerdict verdict = .ok (passedRecord (.dict fs)) := rfl
  obtain ⟨a, actual, -, all⟩ := entries_of_record result told rfl
  cases actual
  obtain ⟨gs, object, tells⟩ := all (.dict es) (.dict fs) es .here rfl
  cases object
  exact ⟨result, told, tells, tells.whole.1 rfl⟩

/-- **An entry is lost** where two keys have one text: of null and the text `None` the record has the later
one only. -/
theorem entries_merged :
    let a : Value := .dict [(.null, .str "x"), (.str "None", .str "y")]
    let verdict : Verdict := ⟨differs, .pass, none, some a, none⟩
    (ofHeld (returning a) (.still differs) ()).result = .ok verdict ∧
      Record.ofVerdict verdict = .ok (passedRecord (.dict [(.str "None", .str "y")])) := by
  intro a verdict
  exact ⟨rfl, rfl⟩

end Evaluation

end Assay
