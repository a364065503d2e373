import Assay.Proofs.Comparison.Stepwise
import Assay.Proofs.Report.Payload
import Assay.Proofs.Run.Special
import Assay.Proofs.Value.Settled

/-!
# What stands where in a report

A reported form is walked together with the value that it tells: to the items of a sequence at one index,
and from an entry of a mapping to the member of its text, if no later entry has the same text.

* `LastOfText` — the last of the entries whose keys have a text, and `mem_ofPairs_iff` — it is the one that
  is left under this text;
* `Stands` — what stands in a report in place of a value, and `reported_of_stands` — it is the reported form
  of the normal form of the value;
* `KeepsShape` — a list for a sequence, an object for a mapping;
* `actual_laws` — what is read from a report, and that nothing but a leaf is told by its text.
-/

namespace Assay

open Value (Entries DistinctKeys EntryReported at? ofPairs)

namespace Value

/-! ### The last entry of a text -/

/-- The entry is the last one whose key has a text. -/
def LastOfText (t : String) (e : Value × Value) (es : Entries) : Prop :=
  e.1.text = .ok t ∧ FirstAt (fun f => f.1.text ≠ .ok t) e es.reverse

theorem LastOfText.mem {t : String} {e : Value × Value} {es : Entries} (h : LastOfText t e es) : e ∈ es :=
  List.mem_reverse.1 h.2.mem

/-- One more entry is the last one of its text, and changes nothing for other texts. -/
theorem lastOfText_append_singleton {t : String} {e p : Value × Value} {es : Entries} :
    LastOfText t e (es ++ [p]) ↔
      e.1.text = .ok t ∧ (p = e ∨ p.1.text ≠ .ok t ∧ LastOfText t e es) := by
  rw [LastOfText, LastOfText, List.reverse_append, List.reverse_singleton, List.singleton_append,
    FirstAt.cons_iff]
  refine and_congr_right fun ht => ?_
  rw [and_iff_right ht]

/-- Among texts, insertion shows under its own one only. -/
theorem lookup_insert_str {s t : String} {u : Value} {es : Entries} (hk : ∀ e ∈ es, ∃ s, e.1 = .str s) :
    lookup (.str t) (insert (.str s) u es) = if s = t then some u else lookup (.str t) es := by
  induction es with
  | nil => simp only [insert, lookup, sameKey_str, beq_iff_eq]
  | cons e es ih =>
    obtain ⟨k, v⟩ := e
    rw [List.forall_mem_cons] at hk
    obtain ⟨⟨n, rfl⟩, hk⟩ := hk
    simp only [insert, lookup, sameKey_str, beq_iff_eq]
    by_cases same : n = s
    · subst same
      rw [if_pos rfl, lookup, sameKey_str]
      simp only [beq_iff_eq]
      split <;> rfl
    · rw [if_neg same, lookup, sameKey_str, ih hk]
      simp only [beq_iff_eq]
      by_cases here : n = t
      · subst here
        rw [if_pos rfl, if_pos rfl, if_neg (Ne.symm same)]
      · rw [if_neg here, if_neg here]

/-- Under a text stands what is found there. -/
theorem mem_iff_lookup_str {t : String} {w : Value} {es : Entries} (hk : ∀ e ∈ es, ∃ s, e.1 = .str s)
    (hd : DistinctKeys es) : (.str t, w) ∈ es ↔ lookup (.str t) es = some w := by
  constructor
  · intro h
    exact lookup_eq_some_of_mem hd h (by rw [sameKey_str, beq_self_eq_true])
  · intro h
    obtain ⟨k, hm, same⟩ := mem_of_lookup h
    obtain ⟨n, rfl⟩ : ∃ n, k = .str n := hk _ hm
    rw [sameKey_str, beq_iff_eq] at same
    exact same ▸ hm

/-- **Of the entries of a text the last one is left.** -/
theorem mem_ofPairs_iff {fs : Entries} (hk : ∀ f ∈ fs, ∃ s, f.1 = .str s) {t : String} {w : Value} :
    (.str t, w) ∈ ofPairs fs ↔ LastOfText t (.str t, w) fs := by
  rw [mem_iff_lookup_str (keys_ofPairs hk) (distinctKeys_ofPairs fs)]
  induction fs using List.reverseRecOn with
  | nil => exact iff_of_false nofun fun h => List.not_mem_nil h.mem
  | append_singleton fs p ih =>
    obtain ⟨texts, hp⟩ := List.forall_mem_append.1 hk
    obtain ⟨k, u⟩ := p
    obtain ⟨s, rfl⟩ : ∃ s, k = .str s := hp _ List.mem_cons_self
    rw [ofPairs_append_singleton, lookup_insert_str (keys_ofPairs texts), lastOfText_append_singleton,
      ← ih texts]
    by_cases same : s = t <;> simp [same]

/-- Under a text there is one value. -/
theorem eq_of_mem_of_mem {es : Entries} (hd : DistinctKeys es) {t : String} {v w : Value}
    (hv : (.str t, v) ∈ es) (hw : (.str t, w) ∈ es) : v = w := by
  have self : sameKey (.str t) (.str t) = true := by
    rw [sameKey_str, beq_self_eq_true]
  have found := lookup_eq_some_of_mem hd hv self
  rw [lookup_eq_some_of_mem hd hw self] at found
  exact (Option.some.inj found).symm

/-! ### Entries and their reported forms -/

/-- An entry is told by the reported form of the normal form of its value, under the text of its key. -/
def EntryTold (e f : Value × Value) : Prop := EntryReported (e.1, e.2.normalized) f

theorem EntryTold.text_ne_iff {e f : Value × Value} (h : EntryTold e f) {t : String} :
    e.1.text ≠ .ok t ↔ f.1.text ≠ .ok t := by
  obtain ⟨s, hs, hf, -⟩ := h
  rw [hs, hf, text_str]

/-- What the reported form of the normal form of a mapping consists of. -/
theorem exists_told {x y : Value} {es : Entries} (hx : x.opened.entries? = some es)
    (h : x.normalized.reported = .ok y) :
    ∃ gs, y = .dict (ofPairs gs) ∧ List.Forall₂ EntryTold es gs := by
  rw [normalized_of_entries hx] at h
  obtain ⟨gs, hy, all⟩ := reported_dict h
  rw [List.forall₂_map_left_iff] at all
  exact ⟨gs, hy, all⟩

section

variable {es fs : Entries} (h : List.Forall₂ EntryTold es fs)

include h

/-- The last entry of a text is told by the last one of it. -/
theorem LastOfText.exists_told {t : String} {e : Value × Value} (he : LastOfText t e es) :
    ∃ w, LastOfText t (.str t, w) fs ∧ e.2.normalized.reported = .ok w := by
  obtain ⟨⟨k, w⟩, first, hew⟩ := exists_firstAt (fun _ _ g => g.text_ne_iff)
    (List.forall₂_reverse_iff.2 h) he.2
  obtain ⟨s, hs, rfl, hw⟩ := hew
  cases hs.symm.trans he.1
  exact ⟨w, ⟨text_str t, first⟩, hw⟩

/-- The last one of a text tells the last entry of it. -/
theorem LastOfText.exists_entry {t : String} {w : Value} (hf : LastOfText t (.str t, w) fs) :
    ∃ e, LastOfText t e es ∧ e.2.normalized.reported = .ok w := by
  obtain ⟨e, first, hew⟩ := exists_firstAt (R := flip EntryTold)
    (fun _ _ g => (EntryTold.text_ne_iff g).symm) (List.forall₂_reverse_iff.2 h).flip hf.2
  obtain ⟨s, hs, key, hw⟩ := hew
  cases key
  exact ⟨e, ⟨hs, first⟩, hw⟩

theorem keys_told : ∀ f ∈ fs, ∃ s, f.1 = .str s := by
  intro f hf
  obtain ⟨e, -, t, -, key, -⟩ := exists_mem_left h hf
  exact ⟨t, key⟩

end

/-! ### What stands in place of a value -/

/-- What stands in a report `r` of the value `v` in place of the values inside `v`. -/
inductive Stands (v r : Value) : Value → Value → Prop
  | here : Stands v r v r
  | item {x x' y' : Value} {xs ys : List Value} {i : Nat} (h : Stands v r x (.list ys))
      (hx : x.opened.items? = some xs) (hi : xs[i]? = some x') (hi' : ys[i]? = some y') : Stands v r x' y'
  | entry {k x x' y' : Value} {t : String} {es fs : Entries} (h : Stands v r x (.dict fs))
      (hx : x.opened.entries? = some es) (hl : LastOfText t (k, x') es) (hm : (.str t, y') ∈ fs) :
      Stands v r x' y'

/-- **What stands in place of a value is the reported form of its normal form.** -/
theorem reported_of_stands {v r x y : Value} (hr : v.normalized.reported = .ok r) (h : Stands v r x y) :
    x.normalized.reported = .ok y := by
  induction h with
  | here => exact hr
  | @item x x' y' xs ys i _ hx hi hi' ih =>
    rw [normalized_of_items hx] at ih
    obtain ⟨zs, hz, all⟩ := reported_of_items rfl ih
    cases hz
    obtain ⟨w, hw, hxw⟩ := exists_getElem?_left all hi'
    rw [List.getElem?_map, hi] at hw
    cases hw
    exact hxw
  | @entry k x x' y' t es fs _ hx hl hm ih =>
    obtain ⟨gs, hg, all⟩ := exists_told hx ih
    cases hg
    obtain ⟨w, last, hw⟩ := hl.exists_told all
    have found : (.str t, w) ∈ ofPairs gs := (mem_ofPairs_iff (keys_told all)).2 last
    obtain rfl := eq_of_mem_of_mem (distinctKeys_ofPairs gs) found hm
    exact hw

/-- A list of the same length for a sequence or an array that holds one, and an object for a mapping. -/
structure KeepsShape (x y : Value) : Prop where
  list : ∀ xs, x.opened.items? = some xs → ∃ ys, y = .list ys ∧ ys.length = xs.length
  object : ∀ es, x.opened.entries? = some es → ∃ fs, y = .dict fs

/-- A collection is not told by its text. -/
theorem keepsShape_of_reported {x y : Value} (h : x.normalized.reported = .ok y) : KeepsShape x y := by
  constructor
  · intro xs hx
    rw [normalized_of_items hx] at h
    obtain ⟨ys, rfl, all⟩ := reported_of_items rfl h
    exact ⟨ys, rfl, by rw [← all.length_eq, List.length_map]⟩
  · intro es hx
    obtain ⟨gs, rfl, -⟩ := exists_told hx h
    exact ⟨_, rfl⟩

/-- No collection is told by its text: neither the value at a position of a normal form, nor what stands in
the report in its place. -/
structure ShapesKept (v r : Value) : Prop where
  parts : ∀ p x y w, at? p v = some x → at? p v.normalized = some y → y.reported = .ok w → KeepsShape x w
  places : ∀ x y, Stands v r x y → KeepsShape x y

theorem shapesKept_of_reported {v r : Value} (h : v.normalized.reported = .ok r) : ShapesKept v r := by
  constructor
  · intro p x y w hx hy hw
    rw [at?_normalized, hx] at hy
    cases hy
    exact keepsShape_of_reported hw
  · intro x y stands
    exact keepsShape_of_reported (reported_of_stands h stands)

/-! ### What is read -/

/-- The texts of a tree in a report, at any depth: they are strict, in ASCII, and read as a value. -/
structure ReadsAs (j : Json) (v : Value) : Prop where
  strict : ∀ depth, Json.IsValue (Json.write .indented depth j)
  ascii : ∀ depth, Json.Ascii (Json.write .indented depth j)
  read : ∀ depth, (Json.parseChars (Json.write .indented depth j)).map Json.toValue = .ok v

/-- **The reported form of what can be written is read as it is**, without the wrapping of scalars. -/
theorem readsAs_of_reported {v r : Value} (hv : v.Writable) (h : v.reported = .ok r) :
    ∃ j, r.toJson = .ok j ∧ ReadsAs j r.normalized := by
  have settled := settled_of_reported h
  have writable : r.Writable := by
    rcases reported_cases v with ⟨w, hw, -, writes⟩ | ⟨-, long⟩
    · cases hw.symm.trans h
      exact writes hv
    · exact absurd hv long
  obtain ⟨j, hj⟩ := settled.sayable.toJson_succeedsIff.isOk_iff.2 writable
  obtain ⟨value, finite⟩ := settled.toValue hj
  refine ⟨j, hj, ?_, ?_, ?_⟩
  · exact fun depth => Json.isValue_write Json.readable_indented j depth finite
  · exact fun depth => Json.ascii_write Json.plain_indented j depth finite
  · intro depth
    rw [Json.parseChars_write_at Json.readable_indented depth (short_of_toJson r hj), ← value]
    rfl

theorem exists_reported {v : Value} (hv : v.Writable) : ∃ r, v.reported = .ok r := by
  rcases reported_cases v with ⟨r, hr, -⟩ | ⟨-, long⟩
  · exact ⟨r, hr⟩
  · exact absurd hv long

end Value

namespace Evaluation

open Report (Record)

/-- The record of a verdict holds the reported form of the normal form of what the operation returned. -/
theorem exists_returned_of_record {σ : Type} {ops : Operations σ} {h : Held σ} {s : σ} {verdict : Verdict}
    {record : Record} {r : Value} (he : (ofHeld ops h s).result = .ok verdict)
    (hr : Record.ofVerdict verdict = .ok record) (ha : record.actual = some r) :
    ∃ out, ComesTo ops h s (.returned out) ∧ verdict.actual = some out.normalized ∧
      out.normalized.reported = .ok r := by
  obtain ⟨actual, told, rfl⟩ := Record.ofVerdict_eq_ok hr
  obtain rfl : actual = some r := ha
  cases hv : verdict.actual with
  | none =>
    rw [hv] at told
    cases told
  | some a =>
    obtain ⟨out, comes, rfl⟩ := (judged_of_result he).ruling.actual a hv
    rw [hv] at told
    cases told with
    | some reported => exact ⟨out, comes, rfl, reported⟩

/-- **Values in reports.**  What can be written has a reported form; this is its own reported form, and its
text in a report is strict, in ASCII, and read as it is, but for the wrapping of scalars.  The actual value in
a record is the reported form of what the operation returned, made normal: it has no wrapping, and where the
operation returned a mapping, a sequence or an array that holds one, it has an object or a list. -/
theorem actual_laws :
    (∀ v : Value, v.Writable → ∃ r j, v.reported = .ok r ∧ r.reported = .ok r ∧ r.toJson = .ok j ∧
        Value.ReadsAs j r.normalized ∧ (v.Unwrapped → r.normalized = r)) ∧
      ∀ (σ : Type) (ops : Operations σ) h s verdict record r, (ofHeld ops h s).result = .ok verdict →
        Record.ofVerdict verdict = .ok record → record.actual = some r →
          ∃ out, ComesTo ops h s (.returned out) ∧ verdict.actual = some out.normalized ∧
            out.normalized.reported = .ok r ∧ r.normalized = r ∧ Value.ShapesKept out r := by
  constructor
  · intro v hv
    obtain ⟨r, hr⟩ := Value.exists_reported hv
    obtain ⟨j, hj, reads⟩ := Value.readsAs_of_reported hv hr
    exact ⟨r, j, hr, (Value.settled_of_reported hr).reported, hj, reads, Value.normalized_of_reported hr⟩
  · intro σ ops h s verdict record r he hr ha
    obtain ⟨out, comes, actual, reported⟩ := exists_returned_of_record he hr ha
    exact ⟨out, comes, actual, reported,
      Value.normalized_of_reported reported (Value.unwrapped_everywhere_normalized out),
      Value.shapesKept_of_reported reported⟩

/-- What is not a number, in a tuple in a read-only mapping, is told by its name in a list in an object. -/
theorem actual_laws_nested :
    let out : Value := .map true [(.str "a", .tuple [.float (.nan 0), .null])]
    let r : Value := .dict [(.str "a", .list [.str "nan", .null])]
    let verdict : Verdict :=
      errorVerdict differs .forbiddenSpecialValue specialMessage (some out.normalized)
    let record : Record := ⟨"t", ["g", "t"], "probe", .error, .str "deep", .bool true,
      some specialMessage, some .forbiddenSpecialValue, some r⟩
    (out.normalized.Writable ∧ ∃ r j, out.normalized.reported = .ok r ∧ r.reported = .ok r ∧
        r.toJson = .ok j ∧ Value.ReadsAs j r.normalized ∧ (out.normalized.Unwrapped → r.normalized = r)) ∧
      (ofHeld (returning out) (.still differs) ()).result = .ok verdict ∧ Record.ofVerdict verdict = .ok record ∧
        ∃ out', ComesTo (returning out) (.still differs) () (.returned out') ∧
          verdict.actual = some out'.normalized ∧ out'.normalized.reported = .ok r ∧ r.normalized = r ∧
            Value.ShapesKept out' r := by
  intro out r verdict record
  have nan : (Value.float (.nan 0)).Writable := Value.writable_leaf (by rintro x ⟨⟩; rfl) (by simp)
  have null : Value.null.Writable := Value.writable_leaf (by rintro x ⟨⟩; rfl) (by simp)
  have items : (Value.list [.float (.nan 0), .null]).Writable :=
    Value.writable_list.2 (List.forall_mem_cons.2 ⟨nan, List.forall_mem_singleton.2 null⟩)
  have writable : out.normalized.Writable :=
    Value.writable_map.2 (List.forall_mem_singleton.2 ⟨Value.writable_str "a", items⟩)
  have result : (ofHeld (returning out) (.still differs) ()).result = .ok verdict := rfl
  have told : Record.ofVerdict verdict = .ok record := rfl
  exact ⟨⟨writable, actual_laws.1 out.normalized writable⟩, result, told,
    actual_laws.2 Unit (returning out) (.still differs) () verdict record r result told rfl⟩

end Evaluation

end Assay
