import Assay.Proofs.Spec.Obstacle
import Assay.Proofs.Spec.Reading

/-!
# Cases of an accepted document

The grammar is a type for documents, and what is made of a document keeps it: reading gives sound
tolerances, defaults, tests and groups, laying defaults over each other keeps them sound, and so does
resolving a test.

* `Tolerance.IsSound` — a bound is a double that is not below zero, at every depth;
* `Defaults.IsSound`, `Test.IsSound`, `Group.IsSound` — what is read from a document;
* `Case.IsSound` — a known mode, names that are not empty, a truth value, and no tolerance or a sound
  one;
* `case_isSound_of_toSpec` — every case of a specification that is read from a document is sound.
-/

namespace Assay

open Grammar (Under IsMode IsBound IsTolerance IsDefaults IsTest IsGroup IsSpecification)

/-! ### What is sound -/

/-- A bound: not below zero, or not a number. -/
def Double.IsLimit (x : Double) : Prop := ¬ Grammar.BelowZero (.double x)

/-- A bound of a structure that is read from a document: a double that is not below zero. -/
inductive Bound.IsLimit : Bound → Prop
  | float {x : Double} (h : x.IsLimit) : IsLimit (.float x)

/-- A plain bound is a double, and so is each bound of a structure that is there; the tolerances of
fields are sound again.  There is no null and no truth value anywhere. -/
inductive Tolerance.IsSound : Tolerance → Prop
  | plain {x : Double} (h : x.IsLimit) : IsSound (.plain (.float x))
  | structured {abs rel : Option Bound} {fields : List (String × Tolerance)}
      (habs : ∀ x, abs = some x → x.IsLimit) (hrel : ∀ x, rel = some x → x.IsLimit)
      (hfields : ∀ f ∈ fields, IsSound f.2) : IsSound (.structured abs rel fields)

structure Defaults.IsSound (d : Defaults) : Prop where
  compare : ∀ v, d.compare = some v → IsMode v
  tolerance : ∀ t, d.tolerance = some t → t.IsSound

structure Test.IsSound (t : Test) : Prop where
  id : t.id ≠ ""
  compare : ∀ v, t.compare = some v → IsMode v
  tolerance : ∀ u, t.tolerance = some u → u.IsSound
  xfail : ∃ b, t.xfail = .bool b

inductive Group.IsSound : Group → Prop
  | mk {name : String} {description : Option Value} {defaults : Option Defaults} {groups : List Group}
      {tests : List Test} (hname : name ≠ "") (hdefaults : ∀ d, defaults = some d → d.IsSound)
      (hgroups : ∀ g ∈ groups, IsSound g) (htests : ∀ t ∈ tests, t.IsSound) :
      IsSound (.mk name description defaults groups tests)

/-- What is in effect for a case: one of the three modes, a path of names, a truth value as mark, and
a tolerance that is absent or sound. -/
structure Case.IsSound (c : Case) : Prop where
  compare : IsMode c.compare
  path : ∀ name ∈ c.path, name ≠ ""
  xfail : ∃ b, c.test.xfail = .bool b
  tolerance : ∀ t, c.tolerance = some t → t.IsSound

/-! ### Tolerances -/

namespace Tolerance

/-- The double nearest to an integer that is not below zero is a bound. -/
theorem isLimit_ofInt {i : Int} (h : ¬ Grammar.BelowZero (.int i)) : (Double.ofInt i).IsLimit := by
  have near := Double.ofInt_isNearest i
  have sign : (0 : Rat) ≤ i := by
    rw [Grammar.belowZero_int_iff, not_lt] at h
    exact_mod_cast h
  intro below
  cases hx : Double.ofInt i with
  | nan k => exact near.ne_nan k hx
  | infinite s =>
    rw [hx, Grammar.belowZero_double_iff] at below
    cases s with
    | true => exact near.ne_infinite_true sign hx
    | false => cases below
  | finite s m =>
    rw [hx] at near below
    cases below with
    | value hv negative => exact absurd (near.toRat?_nonneg sign hv) (not_le.2 negative)

theorem isLimit_of_ofInteger {i : Int} {x : Double} (h : ¬ Grammar.BelowZero (.int i))
    (hx : ofInteger i = .ok x) : x.IsLimit := by
  rcases Quantity.doubleOfInt?_cases i with ⟨s, -, none⟩ | ⟨s, m, finite, some⟩
  · rw [ofInteger, none] at hx
    cases hx
  · rw [ofInteger, some] at hx
    obtain rfl := Except.ok.inj hx
    exact finite ▸ isLimit_ofInt h

/-- A number of the grammar becomes a bound. -/
theorem isLimit_of_toDouble {v : Value} {x : Double} (h : IsBound v) (hx : toDouble v = .ok x) :
    x.IsLimit := by
  obtain ⟨q, hq, above⟩ := h
  unfold Grammar.numberOf? at hq
  split at hq
  · obtain rfl := Option.some.inj hq
    exact isLimit_of_ofInteger above hx
  · obtain rfl := Option.some.inj hq
    exact Except.ok.inj hx ▸ above
  · obtain rfl := Option.some.inj hq
    exact isLimit_of_ofInteger above hx
  · obtain rfl := Option.some.inj hq
    exact Except.ok.inj hx ▸ above
  · cases hq

theorem isLimit_of_bound? {es : Value.Entries} {name : String} {b : Option Bound}
    (h : ∀ v, Under es name v → IsBound v) (hb : bound? name es = .ok b) :
    ∀ x, b = some x → x.IsLimit := by
  rintro x rfl
  unfold bound? at hb
  split at hb
  · cases hb
  · cases hb
  · rename_i v _ hv
    obtain ⟨y, hy, same⟩ := map_eq_ok_iff.1 hb
    obtain rfl := Option.some.inj same
    exact .float (isLimit_of_toDouble (h v (Grammar.under_of_field hv)) hy)

theorem mem_insertField {name : String} {t : Tolerance} {fs : List (String × Tolerance)}
    {f : String × Tolerance} (h : f ∈ insertField name t fs) : f.2 = t ∨ f ∈ fs := by
  induction fs with
  | nil =>
    obtain rfl := List.mem_singleton.1 h
    exact Or.inl rfl
  | cons g fs ih =>
    obtain ⟨n, u⟩ := g
    unfold insertField at h
    split at h
    · rcases List.mem_cons.1 h with rfl | h
      · exact Or.inl rfl
      · exact Or.inr (List.mem_cons_of_mem _ h)
    · rcases List.mem_cons.1 h with rfl | h
      · exact Or.inr List.mem_cons_self
      · exact (ih h).imp id (List.mem_cons_of_mem _)

/-- Fields have no other tolerances than those that were put there. -/
theorem mem_ofFields {fs : List (String × Tolerance)} {f : String × Tolerance} (h : f ∈ ofFields fs) :
    ∃ g ∈ fs, f.2 = g.2 := by
  induction fs using List.reverseRecOn with
  | nil => cases h
  | append_singleton fs g ih =>
    rw [ofFields_append_singleton] at h
    rcases mem_insertField h with same | h
    · exact ⟨g, by simp, same⟩
    · obtain ⟨g', hg', same⟩ := ih h
      exact ⟨g', List.mem_append_left _ hg', same⟩

/-- The tolerances of fields are those that are read from the entries of a mapping. -/
theorem exists_of_mem_readFields {es : Value.Entries} {fs : List (String × Tolerance)}
    (h : readFields es = .ok fs) {f : String × Tolerance} (hf : f ∈ fs) :
    ∃ k v, (k, v) ∈ es ∧ ofValue v = .ok f.2 := by
  rw [Grammar.readFields_eq_mapM, Document.mapM_eq_ok_iff] at h
  obtain ⟨⟨k, v⟩, he, read⟩ := exists_mem_right h.flip hf
  obtain ⟨name, -, read⟩ := bind_eq_ok_iff.1 read
  obtain ⟨t, ht, ⟨⟩⟩ := bind_eq_ok_iff.1 read
  exact ⟨k, v, he, ht⟩

/-- Of the scalars of a numeric library only a double becomes a tolerance. -/
theorem ofValue_scalar_eq_ok {e : Element} {item : Item} {t : Tolerance}
    (h : ofValue (.scalar e item) = .ok t) : ∃ x, item = .float x ∧ t = .plain (.float x) := by
  by_cases double : ∃ x, Value.scalar e item = .scalar .double (.float x)
  · obtain ⟨x, double⟩ := double
    cases double
    exact ⟨x, rfl, (Except.ok.inj h).symm⟩
  · rw [ofValue] at h
    · obtain ⟨text, -, ⟨⟩⟩ := bind_eq_ok_iff.1 h
    all_goals simp_all

theorem isSound_of_ofValue_bound {v : Value} {t : Tolerance} (h : IsBound v) (ht : ofValue v = .ok t) :
    t.IsSound := by
  obtain ⟨q, hq, above⟩ := h
  unfold Grammar.numberOf? at hq
  split at hq
  · obtain rfl := Option.some.inj hq
    obtain ⟨x, hx, ⟨⟩⟩ := bind_eq_ok_iff.1 ht
    exact .plain (isLimit_of_ofInteger above hx)
  · obtain rfl := Option.some.inj hq
    obtain rfl := Except.ok.inj ht
    exact .plain above
  · obtain ⟨x, ⟨⟩, -⟩ := ofValue_scalar_eq_ok ht
  · obtain rfl := Option.some.inj hq
    obtain ⟨x, ⟨⟩, rfl⟩ := ofValue_scalar_eq_ok ht
    exact .plain above
  · cases hq

/-- **What is read from a tolerance of the grammar is sound.** -/
theorem isSound_of_ofValue {v : Value} {t : Tolerance} (h : IsTolerance v) (ht : ofValue v = .ok t) :
    t.IsSound := by
  induction h generalizing t with
  | bound h => exact isSound_of_ofValue_bound h ht
  | @«structure» es only abs rel fields field ih =>
    obtain ⟨fs, hfs, ht⟩ := bind_eq_ok_iff.1 ht
    obtain ⟨a, ha, ht⟩ := bind_eq_ok_iff.1 ht
    obtain ⟨r, hr, ⟨⟩⟩ := bind_eq_ok_iff.1 ht
    refine .structured (isLimit_of_bound? abs ha) (isLimit_of_bound? rel hr) ?_
    intro f hf
    obtain ⟨g, hg, same⟩ := mem_ofFields hf
    rw [Grammar.fieldsIn_eq] at hfs
    cases hv : Value.field "fields" es with
    | none =>
      rw [hv] at hfs
      cases hfs
      cases hg
    | some w =>
      have here := Grammar.under_of_field hv
      obtain ⟨inner, rfl⟩ := fields w here
      rw [hv] at hfs
      obtain ⟨k, u, hu, read⟩ := exists_of_mem_readFields hfs hg
      exact same ▸ ih inner k u here hu read

end Tolerance

/-! ### Reading -/

namespace Document

theorem isSound_of_toleranceOf {es : Value.Entries} {t : Option Tolerance}
    (h : ∀ v, Under es "tolerance" v → IsTolerance v) (ht : toleranceOf es = .ok t) :
    ∀ u, t = some u → u.IsSound := by
  rintro u rfl
  unfold toleranceOf at ht
  split at ht
  · cases ht
  · rename_i v hv
    obtain ⟨w, hw, same⟩ := map_eq_ok_iff.1 ht
    obtain rfl := Option.some.inj same
    exact Tolerance.isSound_of_ofValue (h v (Grammar.under_of_field hv)) hw

theorem isSound_of_readDefaults {es : Value.Entries} {d : Defaults} (h : IsDefaults (.dict es))
    (hd : readDefaults es = .ok d) : d.IsSound := by
  cases h with
  | mk only compare tolerance =>
    obtain ⟨t, ht, ⟨⟩⟩ := bind_eq_ok_iff.1 hd
    exact ⟨fun v hv => compare v (Grammar.under_of_field hv), isSound_of_toleranceOf tolerance ht⟩

theorem isSound_of_defaultsOf {es : Value.Entries} {d : Option Defaults}
    (h : ∀ v, Under es "defaults" v → IsDefaults v) (hd : defaultsOf es = .ok d) :
    ∀ e, d = some e → e.IsSound := by
  rintro e rfl
  unfold defaultsOf at hd
  split at hd
  · rename_i frozen ds hv
    obtain ⟨f, hf, same⟩ := map_eq_ok_iff.1 hd
    obtain rfl := Option.some.inj same
    have belongs := h _ (Grammar.under_of_field hv)
    cases frozen with
    | false => exact isSound_of_readDefaults belongs hf
    | true => cases belongs
  · cases hd

/-- A name that is read is not empty. -/
theorem name_ne_empty {es : Value.Entries} {name s : String} (has : Grammar.Has es name)
    (named : ∀ v, Under es name v → Grammar.IsName v) (h : textOf (need name es) = .ok s) : s ≠ "" := by
  obtain ⟨v, hv⟩ := exists_named?_of_has has
  obtain ⟨t, ht, nonempty⟩ := named v (under_of_named? hv)
  rw [need_eq hv, textOf, text_of_asText? ht] at h
  exact Except.ok.inj h ▸ nonempty

theorem isSound_of_readTest {x : Value} {t : Test} (h : IsTest x) (ht : readTest x = .ok t) :
    t.IsSound := by
  cases h with
  | mk only required id op kind description compare tolerance xfail skip =>
    obtain ⟨i, hi, ht⟩ := bind_eq_ok_iff.1 ht
    obtain ⟨o, -, ht⟩ := bind_eq_ok_iff.1 ht
    obtain ⟨u, hu, ⟨⟩⟩ := bind_eq_ok_iff.1 ht
    exact ⟨name_ne_empty required.1 id hi, fun v hv => compare v (Grammar.under_of_field hv),
      isSound_of_toleranceOf tolerance hu, _, rfl⟩

theorem isSound_of_readTests {xs : List Value} {ts : List Test} (h : ∀ x ∈ xs, IsTest x)
    (hts : readTests xs = .ok ts) : ∀ t ∈ ts, t.IsSound := by
  intro t ht
  obtain ⟨x, hx, read⟩ := exists_mem_right (forall₂_of_readTests hts).flip ht
  exact isSound_of_readTest (h x hx) read

theorem exists_mem_of_readGroups {xs : List Value} {gs : List Group} (h : readGroups xs = .ok gs) {g : Group}
    (hg : g ∈ gs) : ∃ x ∈ xs, readGroup x = .ok g := by
  rw [readGroups_eq_mapM, mapM_eq_ok_iff] at h
  exact exists_mem_right h.flip hg

theorem forall_mem_of_readGroups {xs : List Value} {gs : List Group}
    (h : ∀ x ∈ xs, ∀ g, readGroup x = .ok g → g.IsSound) (hgs : readGroups xs = .ok gs) :
    ∀ g ∈ gs, g.IsSound := by
  intro g hg
  obtain ⟨x, hx, read⟩ := exists_mem_of_readGroups hgs hg
  exact h x hx g read

/-- **What is read from a group of the grammar is sound.** -/
theorem isSound_of_readGroup {x : Value} {g : Group} (h : IsGroup x) (hg : readGroup x = .ok g) :
    g.IsSound := by
  induction h generalizing g with
  | @mk es only required name description defaults groups group tests ih =>
    have whole : IsGroup (.dict es) := .mk only required name description defaults groups group tests
    rw [readGroup, groupsIn_eq false es] at hg
    obtain ⟨n, hn, hg⟩ := bind_eq_ok_iff.1 hg
    obtain ⟨d, hd, hg⟩ := bind_eq_ok_iff.1 hg
    obtain ⟨gs, hgs, hg⟩ := bind_eq_ok_iff.1 hg
    obtain ⟨ts, hts, ⟨⟩⟩ := bind_eq_ok_iff.1 hg
    refine .mk (name_ne_empty required name hn) (isSound_of_defaultsOf defaults hd)
      (forall_mem_of_readGroups ?_ hgs) (isSound_of_readTests (fun y hy => isTest_of_mem whole hy) hts)
    intro y hy
    unfold Value.itemsUnder at hy
    split at hy
    · exact fun g => ih _ y (under_of_named? ‹_›) hy
    · cases hy

/-- A specification that is read from a document has sound defaults and sound groups. -/
theorem isSound_of_toSpec {v : Value} {s : Spec} (h : toSpec v = .ok s) :
    s.defaults.IsSound ∧ ∀ g ∈ s.groups, g.IsSound := by
  obtain ⟨es, rfl, ⟨belongs, -⟩, read⟩ := toSpec_eq_ok_iff.1 h
  have items := fun x hx => isGroup_of_isSpecification belongs (x := x) hx
  cases belongs with
  | mk required name version schema capabilities defaults groups =>
    obtain ⟨n, -, read⟩ := bind_eq_ok_iff.1 read
    obtain ⟨w, -, read⟩ := bind_eq_ok_iff.1 read
    obtain ⟨cs, -, read⟩ := bind_eq_ok_iff.1 read
    obtain ⟨d, hd, read⟩ := bind_eq_ok_iff.1 read
    obtain ⟨gs, hgs, ⟨⟩⟩ := bind_eq_ok_iff.1 read
    refine ⟨?_, forall_mem_of_readGroups (fun x hx g => isSound_of_readGroup (items x hx)) hgs⟩
    cases d with
    | none => exact ⟨nofun, nofun⟩
    | some d => exact isSound_of_defaultsOf defaults hd d rfl

end Document

/-! ### Resolving -/

theorem Defaults.IsSound.overlay {d : Defaults} {inner : Option Defaults} (h : d.IsSound)
    (hi : ∀ e, inner = some e → e.IsSound) : (d.overlay inner).IsSound := by
  cases inner with
  | none => exact h
  | some e =>
    have inner := hi e rfl
    constructor
    · intro v hv
      rcases (Option.orElse_eq_some _ _ _).1 hv with hv | ⟨-, hv⟩
      · exact inner.compare v hv
      · exact h.compare v hv
    · intro t ht
      rcases (Option.orElse_eq_some _ _ _).1 ht with ht | ⟨-, ht⟩
      · exact inner.tolerance t ht
      · exact h.tolerance t ht

namespace Case

theorem isMode_defaultMode : IsMode defaultMode := Or.inl rfl

/-- The mode that is resolved is a known one, if all that are set are. -/
theorem isMode_modeOrDefault {a b : Option Value} (ha : ∀ v, a = some v → IsMode v)
    (hb : ∀ v, b = some v → IsMode v) : IsMode (modeOrDefault (firstSet a b)) := by
  have set : ∀ v, firstSet a b = some v → IsMode v := by
    intro v hv
    unfold firstSet at hv
    split at hv
    · split at hv
      · cases hv
      · exact hb v hv
    · split at hv
      · split at hv
        · cases hv
        · exact hb v hv
      · exact ha v hv
  unfold modeOrDefault
  split
  · exact isMode_defaultMode
  · rename_i v hv
    split
    · exact set v hv
    · exact isMode_defaultMode

theorem isSound_resolve {path : List String} {d : Defaults} {t : Test}
    (hp : ∀ name ∈ path, name ≠ "") (hd : d.IsSound) (ht : t.IsSound) :
    (resolve path d t).IsSound := by
  constructor
  · exact isMode_modeOrDefault ht.compare hd.compare
  · intro name hn
    rcases List.mem_append.1 hn with hn | hn
    · exact hp name hn
    · exact List.mem_singleton.1 hn ▸ ht.id
  · exact ht.xfail
  · intro u hu
    rcases (Option.orElse_eq_some _ _ _).1 hu with hu | ⟨-, hu⟩
    · exact ht.tolerance u hu
    · exact hd.tolerance u hu

end Case

namespace Group

theorem isSound_of_mem_casesOfAll {path : List String} {d : Defaults} {gs : List Group}
    (h : ∀ g ∈ gs, ∀ c ∈ g.cases path d, c.IsSound) : ∀ c ∈ casesOfAll path d gs, c.IsSound := by
  induction gs with
  | nil => exact fun c hc => by cases hc
  | cons g gs ih =>
    rw [List.forall_mem_cons] at h
    intro c hc
    rcases List.mem_append.1 hc with hc | hc
    · exact h.1 c hc
    · exact ih h.2 c hc

/-- **The cases of a sound group are sound**, below every path and under all defaults that are. -/
theorem IsSound.cases {g : Group} (h : g.IsSound) {path : List String} {d : Defaults}
    (hp : ∀ name ∈ path, name ≠ "") (hd : d.IsSound) : ∀ c ∈ g.cases path d, c.IsSound := by
  induction h generalizing path d with
  | @mk name description defaults groups tests hname hdefaults hgroups htests ih =>
    have here : ∀ n ∈ path ++ [name], n ≠ "" := by
      simpa [or_imp, forall_and, hname] using hp
    have merged := hd.overlay hdefaults
    intro c hc
    rw [Group.cases] at hc
    rcases List.mem_append.1 hc with hc | hc
    · exact isSound_of_mem_casesOfAll (fun g hg => ih g hg here merged) c hc
    · obtain ⟨t, ht, rfl⟩ := List.mem_map.1 hc
      exact Case.isSound_resolve here merged (htests t ht)

end Group

/-- **Every case of a specification that is read from a document is sound.** -/
theorem Document.case_isSound_of_toSpec {v : Value} {s : Spec} (h : toSpec v = .ok s) :
    ∀ c ∈ s.cases, c.IsSound := by
  obtain ⟨defaults, groups⟩ := isSound_of_toSpec h
  exact Group.isSound_of_mem_casesOfAll fun g hg => (groups g hg).cases nofun defaults

end Assay
