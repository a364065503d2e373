import Assay.Proofs.Comparison.Conversion
import Assay.Spec.Build

/-!
# Building around a tolerance once more

Structures, defaults, tests and cases convert the tolerance that they are built around.  A tolerance that
comes out of a conversion passes through any number of them unchanged, so it makes no difference how often
that happens on the way from a document to a case.

* `Tolerance.Kept` — what a tolerance that may be absent is like once it has been converted;
* `Group.Kept`, `Document.kept_of_toSpec` — it is like that everywhere in a document that is read;
* `Group.buildCasesOfAll_eq`, `Document.buildCases_of_toSpec` — the cases that are built with a conversion
  at every level are those that are resolved without any;
* `Holder` — what can be built around a tolerance, and `Holder.passAll_of_built`;
* `conversion_laws` — a converted tolerance is a fixed point, and its fields are the last ones given.
-/

namespace Assay

namespace Tolerance

@[simp] theorem ofOption_present (t : Tolerance) : ofOption t.present = t := by
  cases t with
  | «structured» => rfl
  | plain v => cases v <;> rfl

/-- A tolerance that is absent, or there and built. -/
def Kept (t : Option Tolerance) : Prop := (ofOption t).Built ∧ (ofOption t).present = t

theorem kept_none : Kept none := ⟨.absence, rfl⟩

theorem Kept.orElse {t u : Option Tolerance} (ht : Kept t) (hu : Kept u) : Kept (t <|> u) := by
  cases t with
  | none => exact hu
  | some t => exact ht

/-- A tolerance that is read and sound is kept: it is not the mark of absence. -/
theorem IsSound.kept {v : Value} {t : Tolerance} (ht : t.IsSound) (h : ofValue v = .ok t) :
    Kept (some t) := by
  refine ⟨Raw.built_of_convert (Raw.convert_value v ▸ h), ?_⟩
  cases ht with
  | plain => rfl
  | «structured» => rfl

end Tolerance

open Tolerance (Kept ofOption)

/-! ### One level -/

theorem Defaults.build_of_built {t : Tolerance} (h : t.Built) (compare : Option Value) :
    build compare t = .ok ⟨compare, t.present⟩ := by
  rw [build, h.again]
  rfl

theorem Test.build_of_built {u : Tolerance} (h : u.Built) (t : Test) :
    t.build u = .ok { t with tolerance := u.present } := by
  rw [build, h.again]
  rfl

theorem Case.build_of_built {u : Tolerance} (h : u.Built) (c : Case) :
    c.build u = .ok { c with tolerance := u.present } := by
  rw [build, h.again]
  rfl

/-- **Laying defaults over others keeps what is there**, although it converts a tolerance again. -/
theorem Defaults.buildOverlay_eq {outer : Defaults} {inner : Option Defaults} (ho : Kept outer.tolerance)
    (hi : ∀ d, inner = some d → Kept d.tolerance) :
    outer.buildOverlay inner = .ok (outer.overlay inner) := by
  cases inner with
  | none => rfl
  | some d =>
    have kept := (hi d rfl).orElse ho
    rw [buildOverlay, build_of_built kept.1, kept.2]
    rfl

theorem Defaults.kept_overlay {outer : Defaults} {inner : Option Defaults} (ho : Kept outer.tolerance)
    (hi : ∀ d, inner = some d → Kept d.tolerance) : Kept (outer.overlay inner).tolerance := by
  cases inner with
  | none => exact ho
  | some d => exact (hi d rfl).orElse ho

/-- **Resolving a test keeps what is in effect**, although it converts a tolerance again. -/
theorem Case.buildResolved_eq {d : Defaults} {t : Test} (hd : Kept d.tolerance) (ht : Kept t.tolerance)
    (groupPath : List String) : buildResolved groupPath d t = .ok (resolve groupPath d t) := by
  have kept : Kept (resolve groupPath d t).tolerance := ht.orElse hd
  rw [buildResolved, build_of_built kept.1, kept.2]

theorem Case.buildResolvedAll_eq {d : Defaults} {ts : List Test} (hd : Kept d.tolerance)
    (ht : ∀ t ∈ ts, Kept t.tolerance) (groupPath : List String) :
    buildResolvedAll groupPath d ts = .ok (ts.map (resolve groupPath d)) := by
  induction ts with
  | nil => rfl
  | cons t ts ih =>
    rw [List.forall_mem_cons] at ht
    rw [buildResolvedAll, buildResolved_eq hd ht.1, ih ht.2]
    rfl

/-! ### All levels -/

namespace Group

/-- Every tolerance in a group and in the groups inside it is absent or built. -/
inductive Kept : Group → Prop
  | mk {name : String} {description : Option Value} {defaults : Option Defaults} {groups : List Group}
      {tests : List Test} (hdefaults : ∀ d, defaults = some d → Tolerance.Kept d.tolerance)
      (hgroups : ∀ g ∈ groups, Kept g) (htests : ∀ t ∈ tests, Tolerance.Kept t.tolerance) :
      Kept (.mk name description defaults groups tests)

mutual

/-- The cases of a group are the same, whether or not tolerances are converted at its level. -/
theorem buildCases_eq : ∀ {g : Group} (_ : g.Kept) (path : List String) {inherited : Defaults}
    (_ : Tolerance.Kept inherited.tolerance),
    buildCases path inherited g = .ok (cases path inherited g)
  | .mk name description defaults gs ts, .mk hdefaults hgroups htests, path, inherited, hi => by
    have merged := Defaults.kept_overlay hi hdefaults
    have inner := buildCasesOfAll_eq hgroups (path ++ [name]) merged
    have own := Case.buildResolvedAll_eq merged htests (path ++ [name])
    rw [buildCases, cases]
    exact bind_eq_ok_iff.2 ⟨_, Defaults.buildOverlay_eq hi hdefaults,
      bind_eq_ok_iff.2 ⟨_, inner, bind_eq_ok_iff.2 ⟨_, own, rfl⟩⟩⟩

/-- **Conversions at all levels change no case.** -/
theorem buildCasesOfAll_eq : ∀ {gs : List Group} (_ : ∀ g ∈ gs, g.Kept) (path : List String)
    {inherited : Defaults} (_ : Tolerance.Kept inherited.tolerance),
    buildCasesOfAll path inherited gs = .ok (casesOfAll path inherited gs)
  | [], _, _, _, _ => rfl
  | g :: gs, h, path, inherited, hi => by
    rw [List.forall_mem_cons] at h
    rw [buildCasesOfAll, casesOfAll]
    exact bind_eq_ok_iff.2 ⟨_, buildCases_eq h.1 path hi,
      bind_eq_ok_iff.2 ⟨_, buildCasesOfAll_eq h.2 path hi, rfl⟩⟩

end

end Group

/-! ### Documents -/

namespace Document

theorem kept_of_readsTolerance {v : Option Value} {t : Option Tolerance}
    (sound : ∀ u, t = some u → u.IsSound) (h : ReadsTolerance v t) : Kept t := by
  cases h with
  | none => exact Tolerance.kept_none
  | some read => exact (sound _ rfl).kept read

theorem kept_of_readTest {x : Value} {t : Test} (sound : t.IsSound) (h : readTest x = .ok t) :
    Kept t.tolerance := by
  cases x with
  | map frozen es =>
    rw [readTest] at h
    obtain ⟨id, -, h⟩ := bind_eq_ok_iff.1 h
    obtain ⟨op, -, h⟩ := bind_eq_ok_iff.1 h
    obtain ⟨tolerance, read, ⟨⟩⟩ := bind_eq_ok_iff.1 h
    exact kept_of_readsTolerance sound.tolerance (readsTolerance_of_toleranceOf read)
  | _ =>
    -- What is no mapping is read as a test without a tolerance.
    obtain rfl := Except.ok.inj h
    exact Tolerance.kept_none

/-- **Reading a group leaves only tolerances that are built**, if it leaves sound ones. -/
theorem kept_of_readGroup {x : Value} {g : Group} (sound : g.IsSound) (h : readGroup x = .ok g) : g.Kept := by
  have read := groupRead_of_readGroup h
  induction sound generalizing x with
  | mk hname hdefaults hgroups htests ih =>
    refine .mk ?_ ?_ ?_
    · rintro d rfl
      exact kept_of_readsTolerance (hdefaults d rfl).tolerance read.tolerance
    · intro inner member
      obtain ⟨y, -, hy⟩ := exists_mem_of_readGroups read.groups member
      exact ih inner member hy (groupRead_of_readGroup hy)
    · intro t ht
      obtain ⟨y, -, hy⟩ := exists_mem_left (forall₂_of_readTests read.tests) ht
      exact kept_of_readTest (htests t ht) hy

/-- A specification that is read from a document has only tolerances that are built. -/
theorem kept_of_toSpec {v : Value} {s : Spec} (h : toSpec v = .ok s) :
    Kept s.defaults.tolerance ∧ ∀ g ∈ s.groups, g.Kept := by
  obtain ⟨soundDefaults, soundGroups⟩ := isSound_of_toSpec h
  obtain ⟨es, -, -, read⟩ := toSpec_eq_ok_iff.1 h
  obtain ⟨groups, tolerance⟩ := groups_of_readSpec read
  refine ⟨kept_of_readsTolerance soundDefaults.tolerance tolerance, fun g hg => ?_⟩
  obtain ⟨x, -, hx⟩ := exists_mem_of_readGroups groups hg
  exact kept_of_readGroup (soundGroups g hg) hx

/-- **From a document to its cases no conversion but the first one changes anything.** -/
theorem buildCases_of_toSpec {v : Value} {s : Spec} (h : toSpec v = .ok s) :
    Group.buildCasesOfAll [] s.defaults s.groups = .ok s.cases := by
  obtain ⟨defaults, groups⟩ := kept_of_toSpec h
  exact Group.buildCasesOfAll_eq groups [] defaults

end Document

/-! ### Any number of times -/

/-- What can be built around a tolerance: the structure that it is, a structure that has it for a field, or
defaults, a test or a case that hold it. -/
inductive Holder where
  | itself
  | field (abs rel : Option Bound) (name : String)
  | defaults (compare : Option Value)
  | test (t : Test)
  | case (c : Case)

namespace Holder

/-- The tolerance that is found again in what is built around it. -/
def pass (t : Tolerance) : Holder → Except Fault Tolerance
  | .itself =>
    match t with
    | .structured abs rel fields => Tolerance.build abs rel fields
    | .plain b => .ok (.plain b)
  | .field abs rel name => do return (← Tolerance.build abs rel [(name, t)]).forField name
  | .defaults compare => do return ofOption (← Defaults.build compare t).tolerance
  | .test u => do return ofOption (← u.build t).tolerance
  | .case c => do return ofOption (← c.build t).tolerance

/-- The tolerance that is found again after building around it once for each of a list. -/
def passAll (t : Tolerance) : List Holder → Except Fault Tolerance
  | [] => .ok t
  | h :: hs => do passAll (← h.pass t) hs

/-- **A tolerance passes through whatever is built around it.** -/
theorem pass_of_built {t : Tolerance} (h : t.Built) (holder : Holder) : holder.pass t = .ok t := by
  cases holder with
  | itself =>
    cases h with
    | «structured» names each => exact Tolerance.build_of_built (.structured names each)
    | _ => rfl
  | field abs rel name =>
    have whole : (Tolerance.structured abs rel [(name, t)]).Built :=
      .structured (List.nodup_singleton name) (by simpa using h)
    have found : Tolerance.forField name (.structured abs rel [(name, t)]) = t := by
      rw [Tolerance.forField_structured, Tolerance.fieldNamed?_cons, if_pos rfl, Option.getD_some]
    rw [pass, Tolerance.build_of_built whole]
    exact congrArg Except.ok found
  | defaults compare =>
    rw [pass, Defaults.build_of_built h]
    exact congrArg Except.ok (Tolerance.ofOption_present t)
  | test u =>
    rw [pass, Test.build_of_built h]
    exact congrArg Except.ok (Tolerance.ofOption_present t)
  | case c =>
    rw [pass, Case.build_of_built h]
    exact congrArg Except.ok (Tolerance.ofOption_present t)

theorem passAll_of_built {t : Tolerance} (h : t.Built) (holders : List Holder) :
    passAll t holders = .ok t := by
  induction holders with
  | nil => rfl
  | cons holder holders ih =>
    rw [passAll, pass_of_built h holder]
    exact ih

end Holder

/-! ### The whole of it -/

/-- **A conversion is final.**  A tolerance that is made of what is given is converted to itself, and passes
unchanged through whatever is built around it, any number of times.  If it is a structure, its fields have
the texts of the keys that were given for names, each once, and under a name stands what the last field given
for it is converted to, or else the structure itself. -/
theorem conversion_laws {raw : Raw} {t : Tolerance} (h : raw.convert = .ok t) :
    t.again = .ok t ∧ (Raw.ofTolerance t).convert = .ok t ∧
      (∀ holders, Holder.passAll t holders = .ok t) ∧
      ∀ abs rel fields, t = .structured abs rel fields →
        (fields.map Prod.fst).Nodup ∧
          (∀ name, name ∈ fields.map Prod.fst ↔ ∃ e ∈ raw.fields, e.1.text = .ok name) ∧
          ∀ name, (∃ r, Raw.LastField name r raw.fields ∧ r.convert = .ok (t.forField name)) ∨
            (∀ e ∈ raw.fields, e.1.text ≠ .ok name) ∧ t.forField name = t := by
  have built := Raw.built_of_convert h
  refine ⟨built.again, Raw.convert_ofTolerance built, Holder.passAll_of_built built, ?_⟩
  rintro abs rel fields rfl
  obtain ⟨fs, reads, rfl⟩ := Raw.exists_fieldRead h
  refine ⟨Tolerance.nodup_ofFields fs, ?_, ?_⟩
  · intro name
    rw [Tolerance.mem_names_ofFields, Raw.mem_names_iff reads]
  · intro name
    rw [Tolerance.forField_structured, Tolerance.fieldNamed?_ofFields]
    by_cases given : ∃ e ∈ raw.fields, e.1.text = .ok name
    · obtain ⟨r, last⟩ := Raw.exists_lastField given
      obtain ⟨t, found, converted⟩ := Raw.LastField.fieldNamed? reads last
      rw [found]
      exact Or.inl ⟨r, last, converted⟩
    · have none : ∀ e ∈ raw.fields, e.1.text ≠ .ok name := fun e he text => given ⟨e, he, text⟩
      rw [Raw.fieldNamed?_eq_none reads none]
      exact Or.inr ⟨none, rfl⟩

/-- Fields under a truth value and under its text, a null inside a field, and a structure in which nothing
was given for a field. -/
def Raw.colliding : Raw :=
  .mapping false
    [(.str "abs", .value (.float (.infinite false))),
      (.str "fields", .mapping true
        [(.bool true, .value (.float (.nan 0))),
          (.str "x", .value (.dict [(.str "fields", .dict [(.str "y", .null)])])),
          (.str "True", .value .null),
          (.null, .made none none [(.bool false, .absent)])])]

/-- The null wins over the bound that was given before it for the same text. -/
def Tolerance.collided : Tolerance :=
  .structured (some (.float (.infinite false))) none
    [("True", .plain .null), ("x", .structured none none [("y", .plain .null)]),
      ("None", .structured none none [("False", .absence)])]

theorem conversion_laws_colliding :
    Raw.colliding.convert = .ok Tolerance.collided ∧ Tolerance.collided.again = .ok Tolerance.collided ∧
      (∀ holders, Holder.passAll Tolerance.collided holders = .ok Tolerance.collided) ∧
      (∃ r, Raw.LastField "True" r Raw.colliding.fields ∧
        r.convert = .ok (Tolerance.collided.forField "True")) ∧
      Tolerance.collided.forField "z" = Tolerance.collided := by
  have converted : Raw.colliding.convert = .ok Tolerance.collided := rfl
  have texts : ∀ e ∈ Raw.colliding.fields, e.1.text ≠ .ok "z" := by
    intro e he
    have listed : e.1 ∈ [.bool true, .str "x", .str "True", .null] := List.mem_map_of_mem (f := Prod.fst) he
    simp only [List.mem_cons, List.not_mem_nil, or_false] at listed
    rcases listed with key | key | key | key <;> rw [key] <;> decide
  obtain ⟨again, -, holders, fields⟩ := conversion_laws converted
  obtain ⟨-, -, named⟩ := fields _ _ _ rfl
  refine ⟨converted, again, holders, ?_, ?_⟩
  · rcases named "True" with given | ⟨none, -⟩
    · exact given
    · exact absurd rfl (none (.bool true, .value (.float (.nan 0))) List.mem_cons_self)
  · rcases named "z" with ⟨r, ⟨k, text, first⟩, -⟩ | ⟨-, same⟩
    · exact absurd text (texts (k, r) (List.mem_reverse.1 first.mem))
    · exact same

end Assay
