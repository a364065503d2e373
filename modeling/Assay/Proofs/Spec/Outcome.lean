import Assay.Proofs.Spec.Obstacle
import Assay.Proofs.Spec.Reading
import Assay.Proofs.Spec.Refusal
import Assay.Spec.Source

/-!
# What becomes of a document, and of a file

A document is accepted or refused, or something else stops it: a tolerance of the grammar that cannot be
read, or a long integer that would have to be written out.  A file is stopped besides if its path starts at a
home that is not known, if its bytes are no UTF-8, and if the reader of its text fails otherwise than by
calling it ill-formed.  The reader of YAML may be any.

* `InGroup`, `InDocument` — the tolerances of a document, wherever they stand;
* `readSpec_succeedsUnless` — a document of the grammar is read, unless one of them cannot be;
* `Document.Escapes`, `Source.Escapes` — all that stops a document, or a file, without a refusal;
* `accepted_or_refused_unless_stopped` — and nothing else does.
-/

namespace Assay

namespace Document

open Grammar (Under Has IsText IsName IsTolerance IsDefaults IsTest IsGroup IsSpecification Obstacle)

/-! ### The tolerances of a document -/

/-- The tolerance stands in a group: in its defaults, in a test, or in a group inside it. -/
inductive InGroup : Value → Value → Prop
  | defaults {x t : Value} (h : defaultTolerance? x = some t) : InGroup x t
  | test {x y t : Value} (hy : y ∈ x.itemsUnder "tests") (h : y.named? "tolerance" = some t) : InGroup x t
  | group {x y t : Value} (hy : y ∈ x.itemsUnder "groups") (h : InGroup y t) : InGroup x t

/-- The tolerance stands in a document: in its defaults, or in a group. -/
inductive InDocument (v : Value) : Value → Prop
  | defaults {t : Value} (h : defaultTolerance? v = some t) : InDocument v t
  | group {y t : Value} (hy : y ∈ v.itemsUnder "groups") (h : InGroup y t) : InDocument v t

/-! ### Reading -/

section

variable {es : List (Value × Value)}

/-- A text that must be there is read. -/
theorem textOf_need_succeedsUnless {name : String} (has : Has es name)
    (text : ∀ v, Under es name v → IsText v) :
    SucceedsUnless (textOf (need name es)) fun _ => False := by
  obtain ⟨v, hv⟩ := exists_named?_of_has has
  obtain ⟨s, hs⟩ := text v (under_of_named? hv)
  rw [need_eq hv, textOf, text_of_asText? hs]
  exact .ok s

/-- So is a name, which is a text that is not empty. -/
theorem textOf_name_succeedsUnless {name : String} (has : Has es name)
    (named : ∀ v, Under es name v → IsName v) : SucceedsUnless (textOf (need name es)) fun _ => False :=
  textOf_need_succeedsUnless has fun v hv => (named v hv).imp fun _ hs => hs.1

theorem toleranceOf_succeedsUnless (h : ∀ v, Under es "tolerance" v → IsTolerance v) :
    SucceedsUnless (toleranceOf es) fun f =>
      ∃ t, Value.field "tolerance" es = some t ∧ Obstacle t f := by
  unfold toleranceOf
  cases ht : Value.field "tolerance" es with
  | none => exact (SucceedsUnless.ok _).congr (by simp)
  | some t =>
    have tolerance := h t (Grammar.under_of_field ht)
    exact ((Grammar.ofValue_succeedsUnless tolerance).map some).congr (by simp)

theorem defaultsOf_succeedsUnless (h : ∀ v, Under es "defaults" v → IsDefaults v) :
    SucceedsUnless (defaultsOf es) fun f =>
      ∃ t, defaultTolerance? (.dict es) = some t ∧ Obstacle t f := by
  have entry : defaultTolerance? (.dict es) =
      (Value.field "defaults" es).bind (Value.named? "tolerance") := rfl
  rw [entry]
  unfold defaultsOf
  cases hd : Value.field "defaults" es with
  | none => exact (SucceedsUnless.ok _).congr (by simp)
  | some d =>
    cases h d (Grammar.under_of_field hd) with
    | @mk ds _ _ tolerance =>
      exact ((toleranceOf_succeedsUnless tolerance).last fun _ => ⟨_, rfl⟩).map some

end

theorem readTest_succeedsUnless {x : Value} (h : IsTest x) :
    SucceedsUnless (readTest x) fun f => ∃ t, x.named? "tolerance" = some t ∧ Obstacle t f := by
  cases h with
  | @mk es _ required id op _ _ _ tolerance _ _ =>
    have identified := textOf_name_succeedsUnless required.1 id
    have operated := textOf_name_succeedsUnless required.2.1 op
    refine (identified.bind fun _ => operated.bind fun _ =>
      (toleranceOf_succeedsUnless tolerance).last fun _ => ⟨_, rfl⟩).congr fun f => ?_
    rw [false_or, false_or]
    rfl

theorem readTests_succeedsUnless {xs : List Value} (h : ∀ x ∈ xs, IsTest x) :
    SucceedsUnless (readTests xs) fun f =>
      ∃ x ∈ xs, ∃ t, x.named? "tolerance" = some t ∧ Obstacle t f := by
  rw [readTests_eq_mapM]
  exact .mapM fun x hx => readTest_succeedsUnless (h x hx)

theorem readGroups_succeedsUnless {xs : List Value}
    (h : ∀ x ∈ xs, SucceedsUnless (readGroup x) fun f => ∃ t, InGroup x t ∧ Obstacle t f) :
    SucceedsUnless (readGroups xs) fun f => ∃ x ∈ xs, ∃ t, InGroup x t ∧ Obstacle t f := by
  rw [readGroups_eq_mapM]
  exact .mapM h

/-- **A group of the grammar is read, unless a tolerance in it cannot be.** -/
theorem readGroup_succeedsUnless {x : Value} (h : IsGroup x) :
    SucceedsUnless (readGroup x) fun f => ∃ t, InGroup x t ∧ Obstacle t f := by
  induction h with
  | @mk es only required name description defaults groups group tests ih =>
    have whole : IsGroup (.dict es) := .mk only required name description defaults groups group tests
    have inner : ∀ y ∈ (Value.dict es).itemsUnder "groups",
        SucceedsUnless (readGroup y) fun f => ∃ t, InGroup y t ∧ Obstacle t f := by
      intro y hy
      unfold Value.itemsUnder at hy
      split at hy
      · exact ih _ y (under_of_named? ‹_›) hy
      · cases hy
    have named := textOf_name_succeedsUnless required name
    have own := readTests_succeedsUnless fun y hy => isTest_of_mem whole hy
    rw [readGroup, groupsIn_eq false es]
    refine (named.bind fun _ => (defaultsOf_succeedsUnless defaults).bind fun _ =>
      (readGroups_succeedsUnless inner).bind fun _ => own.last fun _ => ⟨_, rfl⟩).congr fun f => ?_
    constructor
    · rintro (⟨⟨⟩⟩ | ⟨t, ht, h⟩ | ⟨y, hy, t, ht, h⟩ | ⟨y, hy, t, ht, h⟩)
      · exact ⟨t, .defaults ht, h⟩
      · exact ⟨t, .group hy ht, h⟩
      · exact ⟨t, .test hy ht, h⟩
    · rintro ⟨t, ht, h⟩
      cases ht with
      | defaults ht => exact Or.inr (Or.inl ⟨t, ht, h⟩)
      | group hy ht => exact Or.inr (Or.inr (Or.inl ⟨_, hy, t, ht, h⟩))
      | test hy ht => exact Or.inr (Or.inr (Or.inr ⟨_, hy, t, ht, h⟩))

theorem texts_eq_mapM (xs : List Value) : texts xs = xs.mapM textOf := by
  induction xs with
  | nil => rfl
  | cons x xs ih => rw [texts, List.mapM_cons, ih]

theorem texts_succeedsUnless {xs : List Value} (h : ∀ x ∈ xs, IsText x) :
    SucceedsUnless (texts xs) fun _ => False := by
  have each : ∀ x ∈ xs, SucceedsUnless (textOf x) fun _ => False := by
    intro x hx
    obtain ⟨s, hs⟩ := h x hx
    rw [textOf, text_of_asText? hs]
    exact .ok s
  rw [texts_eq_mapM]
  exact (SucceedsUnless.mapM each).congr (by simp)

/-- **A document of the grammar is read, unless a tolerance in it cannot be.** -/
theorem readSpec_succeedsUnless {es : List (Value × Value)} (h : IsSpecification (.dict es)) :
    SucceedsUnless (readSpec es) fun f => ∃ t, InDocument (.dict es) t ∧ Obstacle t f := by
  have inner : ∀ y ∈ itemsOf "groups" es,
      SucceedsUnless (readGroup y) fun f => ∃ t, InGroup y t ∧ Obstacle t f :=
    fun y hy => readGroup_succeedsUnless (isGroup_of_isSpecification h hy)
  cases h with
  | mk required name version schema capabilities defaults groups =>
    have named := textOf_name_succeedsUnless required.1 name
    have versioned := textOf_need_succeedsUnless required.2.1 version
    have able : SucceedsUnless (texts (itemsOf "capabilities" es)) fun _ => False := by
      apply texts_succeedsUnless
      intro x hx
      unfold itemsOf at hx
      split at hx
      · obtain ⟨xs, hxs, each⟩ := capabilities _ (Grammar.under_of_field ‹_›)
        cases hxs
        exact each x hx
      · cases hx
    refine (named.bind fun _ => versioned.bind fun _ => able.bind fun _ =>
      (defaultsOf_succeedsUnless defaults).bind fun _ =>
        (readGroups_succeedsUnless inner).last fun _ => ⟨_, rfl⟩).congr fun f => ?_
    rw [false_or, false_or, false_or]
    constructor
    · rintro (⟨t, ht, h⟩ | ⟨y, hy, t, ht, h⟩)
      · exact ⟨t, .defaults ht, h⟩
      · exact ⟨t, .group hy ht, h⟩
    · intro ⟨t, ht, h⟩
      cases ht with
      | defaults ht => exact Or.inl ⟨t, ht, h⟩
      | group hy ht => exact Or.inr ⟨_, hy, t, ht, h⟩

end Document

/-! ### What becomes of a document -/

/-- A document is refused: it is no mapping, or its problems are told. -/
def DocumentFault.IsRefusal : DocumentFault → Prop
  | .notMapping => True
  | .invalid _ => True
  | .fault _ => False

/-- A file is refused: it holds no JSON or no YAML, or a document that is refused. -/
def SourceFault.IsRefusal : SourceFault → Prop
  | .json _ (.misplaced _ _ _ _) => True
  | .yaml _ _ => True
  | .document f => f.IsRefusal
  | .raised f => f.className = "SpecError"
  | .json _ (.longInteger _) => False
  | .homeless => False
  | .encoding _ => False
  | .noFile _ => False
  | .isFolder _ => False

namespace Document

open Grammar (IsSpecification Obstacle)

/-- What stops a value that is to become a specification, without its being refused. -/
inductive Escapes (v : Value) : Fault → Prop
  /-- It is a mapping, and a long integer stands in a tolerance or in what a problem shows. -/
  | unwritten {frozen : Bool} {es : List (Value × Value)} {x : Value} (mapping : v = .map frozen es)
      (hx : x ∈ Grammar.written v) (long : ¬ x.Writable) : Escapes v .longInteger
  /-- It belongs to the grammar, with a tolerance that cannot be read. -/
  | unread {t : Value} {f : Fault} (belongs : IsSpecification v) (ht : InDocument v t)
      (h : Obstacle t f) : Escapes v f

/-- What becomes of a value that is to become a specification. -/
structure Settles (v : Value) : Prop where
  /-- It is accepted if it belongs to the grammar, and refused if it does not, where nothing stops it. -/
  accepted : (∃ s, toSpec v = .ok s) ↔ IsSpecification v ∧ ∀ f, ¬ Escapes v f
  refused : (∃ f, toSpec v = .error f ∧ f.IsRefusal) ↔ ¬ IsSpecification v ∧ ∀ f, ¬ Escapes v f
  /-- Any other fault is that of what stops it. -/
  stopped : ∀ f, toSpec v = .error (.fault f) → Escapes v f

section

variable {v : Value}

theorem toSpec_of_isSpecification (h : IsSpecification v) :
    SucceedsUnless (toSpec v) fun f => ∃ g, f = .fault g ∧ Escapes v g := by
  cases id h with
  | @mk es required name version schema capabilities defaults groups =>
    rcases validate_cases (.dict es) with ⟨short, -, valid⟩ | ⟨-, outside, -⟩ | ⟨long, fault⟩
    · rw [toSpec, valid]
      show SucceedsUnless ((readSpec es).mapError DocumentFault.fault) _
      rcases readSpec_succeedsUnless h with ⟨s, hs, none⟩ | ⟨f, hf, t, ht, obstacle⟩
      · refine Or.inl ⟨s, by rw [hs]; rfl, ?_⟩
        rintro f ⟨g, -, escapes⟩
        cases escapes with
        | unwritten _ hx long => exact long (short _ hx)
        | unread _ ht obstacle => exact none g ⟨_, ht, obstacle⟩
      · exact Or.inr ⟨.fault f, by rw [hf]; rfl, f, rfl, .unread h ht obstacle⟩
    · exact absurd h outside
    · simp only [not_forall] at long
      obtain ⟨x, hx, long⟩ := long
      exact Or.inr ⟨.fault .longInteger, by rw [toSpec, fault]; rfl, _, rfl, .unwritten rfl hx long⟩

/-- Outside the grammar a value is refused, or stopped by what cannot be written out. -/
theorem toSpec_of_not_isSpecification (h : ¬ IsSpecification v) :
    (∃ f, toSpec v = .error f ∧ f.IsRefusal ∧ ∀ g, ¬ Escapes v g) ∨
      (toSpec v = .error (.fault .longInteger) ∧ Escapes v .longInteger) := by
  by_cases mapping : ∃ frozen es, v = .map frozen es
  · obtain ⟨frozen, es, rfl⟩ := mapping
    rcases validate_cases (.map frozen es) with ⟨-, belongs, -⟩ | ⟨short, -, ms, -, refused⟩ | ⟨long, fault⟩
    · exact absurd belongs h
    · refine Or.inl ⟨.invalid ms, by rw [toSpec, refused]; rfl, trivial, fun g escapes => ?_⟩
      cases escapes with
      | unwritten _ hx long => exact long (short _ hx)
      | unread belongs _ _ => exact h belongs
    · simp only [not_forall] at long
      obtain ⟨x, hx, long⟩ := long
      exact Or.inr ⟨by rw [toSpec, fault]; rfl, .unwritten rfl hx long⟩
  · refine Or.inl ⟨.notMapping, ?_, trivial, fun g escapes => ?_⟩
    · cases v with
      | map frozen es => exact absurd ⟨frozen, es, rfl⟩ mapping
      | _ => rfl
    · cases escapes with
      | unwritten hv _ _ => exact mapping ⟨_, _, hv⟩
      | unread belongs _ _ => exact h belongs

/-- **A document is accepted or refused, unless it is stopped.** -/
theorem settles (v : Value) : Settles v := by
  by_cases h : IsSpecification v
  · have read := toSpec_of_isSpecification h
    refine ⟨?_, ?_, ?_⟩
    · rw [read.ok_iff]
      apply Iff.intro
      · intro none
        exact ⟨h, fun g escapes => none _ ⟨g, rfl, escapes⟩⟩
      · intro accepted f ⟨g, _, escapes⟩
        exact accepted.2 g escapes
    · refine iff_of_false ?_ fun other => other.1 h
      intro ⟨f, hf, refusal⟩
      obtain ⟨g, rfl, -⟩ := read.of_error hf
      exact refusal
    · intro f hf
      obtain ⟨g, hg, escapes⟩ := read.of_error hf
      cases hg
      exact escapes
  · rcases toSpec_of_not_isSpecification h with ⟨f, hf, refusal, none⟩ | ⟨hf, escapes⟩
    · refine ⟨iff_of_false ?_ fun other => h other.1, iff_of_true ⟨f, hf, refusal⟩ ⟨h, none⟩, ?_⟩
      · rw [hf]
        exact nofun
      · intro g hg
        cases hf.symm.trans hg
        exact absurd refusal id
    · refine ⟨iff_of_false ?_ fun other => h other.1, iff_of_false ?_ fun other => other.2 _ escapes, ?_⟩
      · rw [hf]
        exact nofun
      · intro ⟨f, hf', refusal⟩
        cases hf.symm.trans hf'
        exact refusal
      · intro f hf'
        cases hf.symm.trans hf'
        exact escapes

theorem toSpec_of_escapes {f : Fault} (h : Escapes v f) : ∃ g, toSpec v = .error (.fault g) := by
  have laws := settles v
  cases hv : toSpec v with
  | ok s => exact absurd h ((laws.accepted.1 ⟨s, hv⟩).2 f)
  | error g =>
    cases g with
    | fault g => exact ⟨g, rfl⟩
    | notMapping => exact absurd h ((laws.refused.1 ⟨_, hv, trivial⟩).2 f)
    | invalid ms => exact absurd h ((laws.refused.1 ⟨_, hv, trivial⟩).2 f)

end

end Document

namespace Source

open Grammar (IsSpecification)

/-! ### What becomes of a file -/

section

variable (home : Path.Home) (yaml : YamlReader) (folder : Folder (List UInt8)) (path : String)

/-- A file stands at the path, once the home of a user is put in its place: `full` is its full path. -/
def FileAt (full : String) (bytes : List UInt8) : Prop :=
  ∃ q, Path.expand home path = some q ∧ folder.fullPath q = full ∧ folder.place q = .file bytes

/-- The file holds these characters. -/
def TextAt (full : String) (cs : List Char) : Prop :=
  ∃ bytes ds, FileAt home folder path full bytes ∧ Text.Utf8.decode bytes = .ok ds ∧ Text.unifyLines ds = cs

/-- What stops a file that is to become a specification, without its being refused. -/
inductive Escapes : SourceFault → Prop
  /-- Its path starts at a home that is not known. -/
  | homeless (h : Path.expand home path = none) : Escapes .homeless
  /-- There is no file, but nothing or a folder. -/
  | nothing {q : String} (hq : Path.expand home path = some q) (h : folder.place q = .nothing) :
      Escapes (.noFile (folder.fullPath q))
  | folder {q : String} (hq : Path.expand home path = some q) (h : folder.place q = .folder) :
      Escapes (.isFolder (folder.fullPath q))
  /-- It holds no UTF-8. -/
  | encoding {full : String} {bytes : List UInt8} {f : Text.Utf8.Fault}
      (stands : FileAt home folder path full bytes) (h : Text.Utf8.decode bytes = .error f) :
      Escapes (.encoding f)
  /-- As JSON it holds a long integer. -/
  | json {full : String} {cs : List Char} {digits : Nat} (text : TextAt home folder path full cs)
      (suffix : isYaml full = false) (read : (Json.parseChars cs : Except _ Json) = .error (.longInteger digits)) :
      Escapes (.json full (.longInteger digits))
  /-- As YAML it makes the reader raise an error of its own. -/
  | raised {full : String} {cs : List Char} {f : Failure} (text : TextAt home folder path full cs)
      (suffix : isYaml full = true) (read : yaml cs = .raised f) (other : f.className ≠ "SpecError") :
      Escapes (.raised f)
  /-- As YAML it holds something that holds itself, and to load that raises an error. -/
  | endless {full : String} {cs : List Char} {f : Failure} (text : TextAt home folder path full cs)
      (suffix : isYaml full = true) (read : yaml cs = .endless (.error f))
      (other : f.className ≠ "SpecError") : Escapes (.raised f)
  /-- It holds a document that is stopped. -/
  | document {full : String} {cs : List Char} {v : Value} {f : Fault}
      (text : TextAt home folder path full cs) (read : content yaml full cs = .ok (.tree v))
      (stopped : Document.Escapes v f) : Escapes (.document (.fault f))

end

/-- What a file holds is accepted. -/
def Content.IsAccepted : Content → Prop
  | .tree v => IsSpecification v ∧ ∀ f, ¬ Document.Escapes v f
  | .endless loaded => ∃ s, loaded = .ok s

/-- What becomes of the file at a path. -/
structure Settles (home : Path.Home) (yaml : YamlReader) (folder : Folder (List UInt8)) (path : String) :
    Prop where
  accepted : (∃ s, load home yaml folder path = .ok s) ↔
    ∃ full cs c, TextAt home folder path full cs ∧ content yaml full cs = .ok c ∧ c.IsAccepted
  /-- It is accepted or refused exactly if nothing stops it. -/
  decided : ((∃ s, load home yaml folder path = .ok s) ∨
      ∃ f, load home yaml folder path = .error f ∧ f.IsRefusal) ↔
    ∀ f, ¬ Escapes home yaml folder path f
  /-- Any other fault is that of what stops it. -/
  stopped : ∀ f, load home yaml folder path = .error f → ¬ f.IsRefusal → Escapes home yaml folder path f

section

variable {home : Path.Home} {yaml : YamlReader} {folder : Folder (List UInt8)} {path full : String}
  {bytes : List UInt8} {cs : List Char} {c : Content} {f : SourceFault}

theorem load_of_homeless (h : Path.expand home path = none) :
    load home yaml folder path = .error .homeless := by
  rw [load, read, h]
  rfl

theorem load_of_expand {q : String} (h : Path.expand home path = some q) :
    load home yaml folder path =
      (readAt yaml (folder.fullPath q) (folder.place q)).bind Content.toSpec := by
  rw [load, read, h]
  rfl

theorem load_of_fileAt (h : FileAt home folder path full bytes) :
    load home yaml folder path = (readAt yaml full (.file bytes)).bind Content.toSpec := by
  obtain ⟨q, hq, rfl, place⟩ := h
  rw [load_of_expand hq, place]

theorem load_of_not_decode {g : Text.Utf8.Fault} (h : FileAt home folder path full bytes)
    (hg : Text.Utf8.decode bytes = .error g) : load home yaml folder path = .error (.encoding g) := by
  rw [load_of_fileAt h, readAt, hg]
  rfl

theorem load_of_textAt (h : TextAt home folder path full cs) :
    load home yaml folder path = (content yaml full cs).bind Content.toSpec := by
  obtain ⟨bytes, ds, stands, decoded, rfl⟩ := h
  rw [load_of_fileAt stands, readAt, decoded]

/-- What stands at a path. -/
theorem path_cases (home : Path.Home) (folder : Folder (List UInt8)) (path : String) :
    Path.expand home path = none ∨
      (∃ q, Path.expand home path = some q ∧ (folder.place q = .nothing ∨ folder.place q = .folder)) ∨
      (∃ full bytes g, FileAt home folder path full bytes ∧ Text.Utf8.decode bytes = .error g) ∨
      ∃ full cs, TextAt home folder path full cs := by
  cases hq : Path.expand home path with
  | none => exact Or.inl rfl
  | some q =>
    cases place : folder.place q with
    | nothing => exact Or.inr (Or.inl ⟨q, rfl, Or.inl place⟩)
    | folder => exact Or.inr (Or.inl ⟨q, rfl, Or.inr place⟩)
    | file bytes =>
      have stands : FileAt home folder path (folder.fullPath q) bytes := ⟨q, hq, rfl, place⟩
      cases decoded : Text.Utf8.decode bytes with
      | error g => exact Or.inr (Or.inr (Or.inl ⟨_, bytes, g, stands, decoded⟩))
      | ok ds => exact Or.inr (Or.inr (Or.inr ⟨_, _, bytes, ds, stands, decoded, rfl⟩))

/-- Characters that hold nothing are refused, or their reader stops. -/
theorem escapes_of_content (text : TextAt home folder path full cs) (h : content yaml full cs = .error f)
    (other : ¬ f.IsRefusal) : Escapes home yaml folder path f := by
  unfold content at h
  by_cases suffix : isYaml full = true
  · rw [if_pos suffix] at h
    cases reading : yaml cs with
    | raised g =>
      rw [reading] at h
      cases h
      exact .raised text suffix reading other
    | refused diagnosis =>
      rw [reading] at h
      cases h
      exact absurd trivial other
    | _ =>
      rw [reading] at h
      cases h
  · rw [if_neg suffix] at h
    cases parsed : (Json.parseChars cs : Except _ Json) with
    | ok j =>
      rw [parsed] at h
      cases h
    | error g =>
      rw [parsed] at h
      cases h
      cases g with
      | misplaced _ _ _ _ => exact absurd trivial other
      | longInteger n => exact .json text (Bool.eq_false_iff.2 suffix) parsed

/-- Only YAML holds something that holds itself. -/
theorem yaml_of_content_endless {loaded : Except Failure Spec}
    (h : content yaml full cs = .ok (.endless loaded)) :
    isYaml full = true ∧ yaml cs = .endless loaded := by
  unfold content at h
  by_cases suffix : isYaml full = true
  · rw [if_pos suffix] at h
    cases reading : yaml cs with
    | endless other =>
      rw [reading] at h
      cases h
      exact ⟨suffix, rfl⟩
    | _ =>
      rw [reading] at h
      cases h
  · rw [if_neg suffix] at h
    obtain ⟨j, -, ⟨⟩⟩ := map_eq_ok_iff.1 h

/-- What is held is accepted or refused, or it is stopped. -/
theorem escapes_of_toSpec (text : TextAt home folder path full cs) (held : content yaml full cs = .ok c)
    (h : c.toSpec = .error f) (other : ¬ f.IsRefusal) : Escapes home yaml folder path f := by
  cases c with
  | tree v =>
    cases hv : Document.toSpec v with
    | ok s =>
      rw [Content.toSpec, hv] at h
      cases h
    | error g =>
      rw [Content.toSpec, hv] at h
      cases h
      cases g with
      | notMapping => exact absurd trivial other
      | invalid ms => exact absurd trivial other
      | fault g => exact .document text held ((Document.settles v).stopped g hv)
  | endless loaded =>
    obtain ⟨suffix, reading⟩ := yaml_of_content_endless held
    cases loaded with
    | ok s => cases h
    | error g =>
      cases h
      exact .endless text suffix reading other

/-- **A fault that is no refusal comes from what stops the file.** -/
theorem escapes_of_load (h : load home yaml folder path = .error f) (other : ¬ f.IsRefusal) :
    Escapes home yaml folder path f := by
  rcases path_cases home folder path with
    none | ⟨q, hq, place | place⟩ | ⟨full, bytes, g, stands, broken⟩ | ⟨full, cs, text⟩
  · cases (load_of_homeless none).symm.trans h
    exact .homeless none
  · rw [load_of_expand hq, place] at h
    cases h
    exact .nothing hq place
  · rw [load_of_expand hq, place] at h
    cases h
    exact .folder hq place
  · cases (load_of_not_decode stands broken).symm.trans h
    exact .encoding stands broken
  · rw [load_of_textAt text] at h
    cases held : content yaml full cs with
    | error g =>
      rw [held] at h
      cases h
      exact escapes_of_content text held other
    | ok c =>
      rw [held] at h
      exact escapes_of_toSpec text held h other

/-- What stops a file is a fault that is no refusal. -/
theorem load_of_escapes (h : Escapes home yaml folder path f) :
    ∃ g, load home yaml folder path = .error g ∧ ¬ g.IsRefusal := by
  cases h with
  | homeless none => exact ⟨_, load_of_homeless none, id⟩
  | nothing hq place => exact ⟨_, by rw [load_of_expand hq, place]; rfl, id⟩
  | folder hq place => exact ⟨_, by rw [load_of_expand hq, place]; rfl, id⟩
  | encoding stands broken => exact ⟨_, load_of_not_decode stands broken, id⟩
  | @json full cs n text suffix read =>
    refine ⟨.json full (.longInteger n), ?_, id⟩
    rw [load_of_textAt text, content, suffix, if_neg Bool.false_ne_true, read]
    rfl
  | @raised full cs g text suffix read other =>
    refine ⟨.raised g, ?_, other⟩
    rw [load_of_textAt text, content, if_pos suffix, read]
    rfl
  | @endless full cs g text suffix read other =>
    refine ⟨.raised g, ?_, other⟩
    rw [load_of_textAt text, content, if_pos suffix, read]
    rfl
  | document text read stopped =>
    obtain ⟨g, hg⟩ := Document.toSpec_of_escapes stopped
    refine ⟨.document (.fault g), ?_, id⟩
    rw [load_of_textAt text, read]
    show (Document.toSpec _).mapError _ = _
    rw [hg]
    rfl

theorem content_isAccepted_iff : c.IsAccepted ↔ ∃ s, c.toSpec = .ok s := by
  cases c with
  | tree v =>
    rw [Content.IsAccepted, ← (Document.settles v).accepted]
    constructor
    · rintro ⟨s, hs⟩
      exact ⟨s, by rw [Content.toSpec, hs]; rfl⟩
    · rintro ⟨s, hs⟩
      cases hv : Document.toSpec v with
      | ok t => exact ⟨t, rfl⟩
      | error g =>
        rw [Content.toSpec, hv] at hs
        cases hs
  | endless loaded => exact exists_congr fun _ => mapError_eq_ok_iff.symm

theorem load_eq_ok_iff {s : Spec} : load home yaml folder path = .ok s ↔
    ∃ full cs c, TextAt home folder path full cs ∧ content yaml full cs = .ok c ∧ c.toSpec = .ok s := by
  constructor
  · intro h
    rcases path_cases home folder path with
      none | ⟨q, hq, place | place⟩ | ⟨full, bytes, g, stands, broken⟩ | ⟨full, cs, text⟩
    · cases (load_of_homeless none).symm.trans h
    · rw [load_of_expand hq, place] at h
      cases h
    · rw [load_of_expand hq, place] at h
      cases h
    · cases (load_of_not_decode stands broken).symm.trans h
    · rw [load_of_textAt text] at h
      obtain ⟨c, held, accepted⟩ := bind_eq_ok_iff.1 h
      exact ⟨full, cs, c, text, held, accepted⟩
  · rintro ⟨full, cs, c, text, held, accepted⟩
    rw [load_of_textAt text, held]
    exact accepted

end

/-- **A file is accepted or refused, unless it is stopped.** -/
theorem settles (home : Path.Home) (yaml : YamlReader) (folder : Folder (List UInt8)) (path : String) :
    Settles home yaml folder path := by
  refine ⟨?_, ?_, fun f h other => escapes_of_load h other⟩
  · constructor
    · rintro ⟨s, h⟩
      obtain ⟨full, cs, c, text, held, accepted⟩ := load_eq_ok_iff.1 h
      exact ⟨full, cs, c, text, held, content_isAccepted_iff.2 ⟨s, accepted⟩⟩
    · rintro ⟨full, cs, c, text, held, accepted⟩
      obtain ⟨s, hs⟩ := content_isAccepted_iff.1 accepted
      exact ⟨s, load_eq_ok_iff.2 ⟨full, cs, c, text, held, hs⟩⟩
  · constructor
    · intro h f escapes
      obtain ⟨g, hg, other⟩ := load_of_escapes escapes
      rcases h with ⟨s, hs⟩ | ⟨g', hg', refusal⟩
      · cases hg.symm.trans hs
      · cases hg.symm.trans hg'
        exact other refusal
    · intro none
      cases h : load home yaml folder path with
      | ok s => exact Or.inl ⟨s, rfl⟩
      | error f =>
        refine Or.inr ⟨f, rfl, ?_⟩
        by_contra other
        exact none f (escapes_of_load h other)

end Source

end Assay
