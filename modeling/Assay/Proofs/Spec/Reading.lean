import Assay.Proofs.Spec.Refusal
import Assay.Proofs.Spec.Site

/-!
# From a document to its cases

What a case of a specification has is read off the document at one site.  Nothing but the names that
the grammar knows plays a part in it, and an absent list of groups or tests is like an empty one.

* `Site.nearestTolerance` — the tolerance at the innermost level of the document that has one;
* `TestRead`, `Carries` — what a case has from its site;
* `Alike`, `AlikeDocuments` — documents that differ in nothing that matters;
* `toSpec_cases` — the cases of a specification are the tests of the document, in post-order, each
  with what its site says, and documents that are alike have one specification.
-/

namespace Assay.Document

open Grammar (Under IsText IsName IsTest IsGroup IsSpecification)

/-! ### What a case has -/

/-- The tolerance at the innermost level that has one: the test, the groups inside out, and the
document at last. -/
def Site.nearestTolerance (v : Value) (a : Site) : Option Value :=
  a.test.named? "tolerance" <|>
    (a.chain.reverse.map defaultTolerance? ++ [defaultTolerance? v]).findSome? id

/-- What a test has from the document.  An absent key is `none`, and a null stays a null. -/
structure TestRead (x : Value) (t : Test) : Prop where
  id : (x.named? "id").bind Value.asText? = some t.id
  op : (x.named? "op").bind Value.asText? = some t.op
  input : x.named? "input" = some t.input
  expected : x.named? "expected" = some t.expected
  kind : t.kind = x.named? "kind"
  description : t.description = x.named? "description"
  skip : t.skip = x.named? "skip"
  metadata : t.metadata = x.named? "meta"
  xfail : ∃ b, t.xfail = .bool b ∧
    (b = false ↔ x.named? "xfail" = none ∨ x.named? "xfail" = some (.bool false))
  tolerance : ReadsTolerance (x.named? "tolerance") t.tolerance

/-- What the case of a site has: the test there, the names of the groups around it, and the tolerance
at the innermost level. -/
structure Carries (v : Value) (a : Site) (c : Case) : Prop where
  test : TestRead a.test c.test
  groupPath : List.Forall₂ (fun g name => (g.named? "group").bind Value.asText? = some name) a.chain
    c.groupPath
  tolerance : ReadsTolerance (a.nearestTolerance v) c.tolerance

/-! ### Documents that are alike -/

/-- Groups that have the same name, description, defaults and tests, and groups alike; an absent list
of groups or tests is like an empty one. -/
inductive Alike : Value → Value → Prop
  | mk {es fs : List (Value × Value)}
      (same : ∀ n ∈ ["group", "description", "defaults"],
        (Value.dict es).named? n = (Value.dict fs).named? n)
      (tests : (Value.dict es).itemsUnder "tests" = (Value.dict fs).itemsUnder "tests")
      (count : ((Value.dict es).itemsUnder "groups").length =
        ((Value.dict fs).itemsUnder "groups").length)
      (groups : ∀ (i : Nat) x y, ((Value.dict es).itemsUnder "groups")[i]? = some x →
        ((Value.dict fs).itemsUnder "groups")[i]? = some y → Alike x y) :
      Alike (.dict es) (.dict fs)

/-- Documents that have the same under every name that the grammar knows, but for groups that are
alike. -/
inductive AlikeDocuments : Value → Value → Prop
  | mk {es fs : List (Value × Value)}
      (same : ∀ n ∈ ["spec", "version", "schema", "capabilities", "defaults"],
        (Value.dict es).named? n = (Value.dict fs).named? n)
      (groups : List.Forall₂ Alike ((Value.dict es).itemsUnder "groups")
        ((Value.dict fs).itemsUnder "groups")) :
      AlikeDocuments (.dict es) (.dict fs)

/-! ### Names of the grammar -/

theorem under_of_named? {es : List (Value × Value)} {name : String} {v : Value}
    (h : (Value.dict es).named? name = some v) : Under es name v :=
  Grammar.under_of_field h

theorem exists_named?_of_has {es : List (Value × Value)} {name : String} (h : Grammar.Has es name) :
    ∃ v, (Value.dict es).named? name = some v := by
  have present := Grammar.has_iff.2 h
  rw [← Value.lookup_isSome] at present
  exact Option.isSome_iff_exists.1 present

theorem text_of_asText? {v : Value} {s : String} (h : v.asText? = some s) : v.text = .ok s := by
  cases v with
  | str t =>
    cases h
    rfl
  | scalar e i => cases e <;> cases i <;> cases h; rfl
  | _ => cases h

theorem need_eq {es : List (Value × Value)} {name : String} {v : Value}
    (h : (Value.dict es).named? name = some v) : need name es = v := by
  rw [need, show Value.field name es = some v from h, Option.getD_some]

/-- A name that must be there is read as its text. -/
theorem asText?_of_textOf {es : List (Value × Value)} {name s : String} (has : Grammar.Has es name)
    (named : ∀ v, Under es name v → IsName v) (h : textOf (need name es) = .ok s) :
    ((Value.dict es).named? name).bind Value.asText? = some s := by
  obtain ⟨v, hv⟩ := exists_named?_of_has has
  obtain ⟨t, ht, -⟩ := named v (under_of_named? hv)
  rw [need_eq hv, textOf, text_of_asText? ht] at h
  rw [hv, Option.bind_some, ht, Except.ok.inj h]

/-! ### Reading a test -/

theorem testRead_of_readTest {x : Value} {t : Test} (hx : IsTest x) (h : readTest x = .ok t) :
    TestRead x t := by
  cases hx with
  | @mk es _ required id op _ _ _ _ xfail _ =>
    obtain ⟨hasId, hasOp, hasInput, hasExpected⟩ := required
    obtain ⟨i, hi, h⟩ := bind_eq_ok_iff.1 h
    obtain ⟨o, ho, h⟩ := bind_eq_ok_iff.1 h
    obtain ⟨tol, htol, ⟨⟩⟩ := bind_eq_ok_iff.1 h
    obtain ⟨input, hinput⟩ := exists_named?_of_has hasInput
    obtain ⟨expected, hexpected⟩ := exists_named?_of_has hasExpected
    refine ⟨asText?_of_textOf hasId id hi, asText?_of_textOf hasOp op ho, ?_, ?_, rfl, rfl, rfl, rfl, ?_,
      readsTolerance_of_toleranceOf htol⟩
    · rw [hinput, need_eq hinput]
    · rw [hexpected, need_eq hexpected]
    · refine ⟨_, rfl, ?_⟩
      show (((Value.dict es).named? "xfail").map Value.truth).getD false = false ↔ _
      cases hb : (Value.dict es).named? "xfail" with
      | none => simp
      | some v =>
        obtain ⟨b, rfl⟩ := xfail v (under_of_named? hb)
        simp [Value.truth]

/-! ### Sites of the grammar -/

/-- The groups and the tests inside a group of the grammar belong to it. -/
theorem isGroup_of_mem {g x : Value} (hg : IsGroup g) (hx : x ∈ g.itemsUnder "groups") : IsGroup x := by
  cases hg with
  | @mk es _ _ _ _ _ _ group _ =>
    unfold Value.itemsUnder at hx
    split at hx
    · exact group _ x (under_of_named? ‹_›) hx
    · cases hx

theorem isTest_of_mem {g x : Value} (hg : IsGroup g) (hx : x ∈ g.itemsUnder "tests") : IsTest x := by
  cases hg with
  | @mk es _ _ _ _ _ _ _ tests =>
    unfold Value.itemsUnder at hx
    split at hx
    · obtain ⟨ts, hts, each⟩ := tests _ (under_of_named? ‹_›)
      cases hts
      exact each x hx
    · cases hx

/-- At a site of the grammar stands a test, and around it are groups. -/
theorem Site.In.forms {xs : List Value} {a : Site} (h : In xs a) (hxs : ∀ x ∈ xs, IsGroup x) :
    IsTest a.test ∧ ∀ g ∈ a.chain, IsGroup g := by
  induction h with
  | own hg ht =>
    have group := hxs _ (List.mem_of_getElem? hg)
    refine ⟨isTest_of_mem group (List.mem_of_getElem? ht), ?_⟩
    simpa using group
  | inner hg ha ih =>
    have group := hxs _ (List.mem_of_getElem? hg)
    obtain ⟨test, chain⟩ := ih fun x hx => isGroup_of_mem group hx
    exact ⟨test, List.forall_mem_cons.2 ⟨group, chain⟩⟩

theorem isGroup_of_isSpecification {v x : Value} (hv : IsSpecification v)
    (hx : x ∈ v.itemsUnder "groups") : IsGroup x := by
  cases hv with
  | @mk es _ _ _ _ _ _ groups =>
    unfold Value.itemsUnder at hx
    split at hx
    · obtain ⟨gs, hgs, each⟩ := groups _ (under_of_named? ‹_›)
      cases hgs
      exact each x hx
    · cases hx

/-- The name of a group of the grammar is the text under its key. -/
theorem GroupRead.name_eq {x : Value} {g : Group} (h : GroupRead x g) (hx : IsGroup x) :
    (x.named? "group").bind Value.asText? = some g.name := by
  cases hx with
  | @mk es _ required name _ _ _ _ _ =>
    obtain ⟨v, hv⟩ := exists_named?_of_has required
    obtain ⟨s, hs, -⟩ := name v (under_of_named? hv)
    have read := h.name v hv
    rw [text_of_asText? hs] at read
    rw [hv, Option.bind_some, hs, Except.ok.inj read]

/-! ### Tolerances of a chain -/

theorem ReadsTolerance.orElse {a b : Option Value} {s t : Option Tolerance} (h : ReadsTolerance a s)
    (h' : ReadsTolerance b t) : ReadsTolerance (a <|> b) (s <|> t) := by
  cases h with
  | none => exact h'
  | some h => exact .some h

/-- The innermost level is found in the document as it is in the specification. -/
theorem readsTolerance_findSome? {levels : List (Option Value)} {ds : List (Option Defaults)}
    (h : List.Forall₂ (fun v d => ReadsTolerance v (d.bind Defaults.tolerance)) levels ds) :
    ReadsTolerance (levels.findSome? id) (Spot.innermost Defaults.tolerance ds) := by
  induction h with
  | nil => exact .none
  | @cons v d levels ds hv _ ih =>
    have left : (v :: levels).findSome? id = (v <|> levels.findSome? id) := by
      cases v <;> rfl
    have right : Spot.innermost Defaults.tolerance (d :: ds) =
        (d.bind Defaults.tolerance <|> Spot.innermost Defaults.tolerance ds) := by
      rw [Spot.innermost, List.findSome?_cons]
      cases d.bind Defaults.tolerance <;> rfl
    rw [left, right]
    exact hv.orElse ih

theorem readsTolerance_levels {v : Value} {d : Defaults} {a : Site} {s : Spot} (h : Reads a s)
    (hd : ReadsTolerance (defaultTolerance? v) d.tolerance) :
    List.Forall₂ (fun v d => ReadsTolerance v (d.bind Defaults.tolerance))
      (a.chain.reverse.map defaultTolerance? ++ [defaultTolerance? v]) (s.levels (some d)) := by
  refine List.rel_append ?_ (.cons hd .nil)
  rw [List.forall₂_map_left_iff, List.forall₂_map_right_iff]
  exact (List.forall₂_reverse_iff.2 h.chain).imp fun _ _ group => group.tolerance

/-- **The case of a spot carries what its site says.** -/
theorem Reads.carries {v : Value} {d : Defaults} {a : Site} {s : Spot} (h : Reads a s)
    (ha : IsTest a.test ∧ ∀ g ∈ a.chain, IsGroup g)
    (hd : ReadsTolerance (defaultTolerance? v) d.tolerance) : Carries v a (s.resolved [] d) := by
  have test := testRead_of_readTest ha.1 h.test
  refine ⟨test, ?_, ?_⟩
  · show List.Forall₂ _ a.chain ([] ++ s.chain.map Group.name)
    rw [List.nil_append, List.forall₂_map_right_iff]
    exact forall₂_imp_of_mem h.chain fun x g hx group => group.name_eq (ha.2 x hx)
  · have resolved : (s.resolved [] d).tolerance =
        (s.test.tolerance <|> Spot.innermost Defaults.tolerance (s.levels (some d))) :=
      (resolved_resolves [] (some d) s).tolerance
    rw [resolved]
    exact test.tolerance.orElse (readsTolerance_findSome? (readsTolerance_levels h hd))

/-! ### Reading what is alike -/

section

variable {es fs : List (Value × Value)}

theorem need_congr {name : String} (h : (Value.dict es).named? name = (Value.dict fs).named? name) :
    need name es = need name fs :=
  congrArg (fun v : Option Value => v.getD .null) h

theorem itemsOf_congr {name : String} (h : (Value.dict es).named? name = (Value.dict fs).named? name) :
    itemsOf name es = itemsOf name fs := by
  unfold itemsOf
  rw [show Value.field name es = Value.field name fs from h]

theorem defaultsOf_congr (h : (Value.dict es).named? "defaults" = (Value.dict fs).named? "defaults") :
    defaultsOf es = defaultsOf fs := by
  unfold defaultsOf
  rw [show Value.field "defaults" es = Value.field "defaults" fs from h]

end

theorem readGroups_congr {xs ys : List Value}
    (h : List.Forall₂ (fun x y => readGroup x = readGroup y) xs ys) : readGroups xs = readGroups ys := by
  induction h with
  | nil => rfl
  | cons hxy _ ih => rw [readGroups, readGroups, hxy, ih]

/-- **Groups that are alike are read alike.** -/
theorem readGroup_congr {x y : Value} (h : Alike x y) : readGroup x = readGroup y := by
  induction h with
  | @mk es fs same tests count groups ih =>
    have name := need_congr (same "group" (by simp))
    have description : Value.field "description" es = Value.field "description" fs :=
      same "description" (by simp)
    have defaults := defaultsOf_congr (same "defaults" (by simp))
    have inner : groupsIn es = groupsIn fs := by
      rw [groupsIn_eq false es, groupsIn_eq false fs]
      exact readGroups_congr (forall₂_of_getElem? count ih)
    have own : itemsOf "tests" es = itemsOf "tests" fs := tests
    rw [readGroup, readGroup, name, description, defaults, inner, own]

/-- Documents that are alike are read alike. -/
theorem readSpec_congr {es fs : List (Value × Value)} (h : AlikeDocuments (.dict es) (.dict fs)) :
    readSpec es = readSpec fs := by
  cases h with
  | mk same groups =>
    have name := need_congr (same "spec" (by simp))
    have version := need_congr (same "version" (by simp))
    have schema : Value.field "schema" es = Value.field "schema" fs := same "schema" (by simp)
    have capabilities := itemsOf_congr (same "capabilities" (by simp))
    have defaults := defaultsOf_congr (same "defaults" (by simp))
    have inner : readGroups (itemsOf "groups" es) = readGroups (itemsOf "groups" fs) :=
      readGroups_congr (groups.imp fun _ _ => readGroup_congr)
    rw [readSpec, readSpec, name, version, schema, capabilities, defaults, inner]

/-! ### Tolerances of what is alike -/

theorem tolerancesOfEntries_eq (es : List (Value × Value)) :
    Grammar.tolerancesOfEntries es = Grammar.tolerancesOfItems ((Value.dict es).itemsUnder "groups") := by
  induction es with
  | nil => rfl
  | cons e es ih =>
    obtain ⟨k, v⟩ := e
    rw [Grammar.tolerancesOfEntries, Value.itemsUnder, Value.named?, Value.field, Value.lookup]
    split
    · cases v <;> rfl
    · exact ih

theorem tolerancesOfTests_eq (es : List (Value × Value)) :
    Grammar.tolerancesOfTests (Value.field "tests" es) =
      ((Value.dict es).itemsUnder "tests").flatMap Grammar.toleranceIn := by
  rw [Value.itemsUnder, Value.named?]
  cases Value.field "tests" es with
  | none => rfl
  | some v => cases v <;> rfl

theorem tolerancesOfItems_congr {xs ys : List Value}
    (h : List.Forall₂ (fun x y => Grammar.tolerancesOfGroup x = Grammar.tolerancesOfGroup y) xs ys) :
    Grammar.tolerancesOfItems xs = Grammar.tolerancesOfItems ys := by
  induction h with
  | nil => rfl
  | cons hxy _ ih => rw [Grammar.tolerancesOfItems, Grammar.tolerancesOfItems, hxy, ih]

/-- Groups that are alike have the same tolerances. -/
theorem tolerancesOfGroup_congr {x y : Value} (h : Alike x y) :
    Grammar.tolerancesOfGroup x = Grammar.tolerancesOfGroup y := by
  induction h with
  | @mk es fs same tests count groups ih =>
    have defaults : Value.field "defaults" es = Value.field "defaults" fs := same "defaults" (by simp)
    have inner := tolerancesOfItems_congr (forall₂_of_getElem? count ih)
    rw [Grammar.tolerancesOfGroup, Grammar.tolerancesOfGroup, defaults, tolerancesOfTests_eq,
      tolerancesOfTests_eq, tests, tolerancesOfEntries_eq, tolerancesOfEntries_eq, inner]

theorem tolerances_congr {v w : Value} (h : AlikeDocuments v w) :
    Grammar.tolerances v = Grammar.tolerances w := by
  cases h with
  | @mk es fs same groups =>
    have defaults : Value.field "defaults" es = Value.field "defaults" fs := same "defaults" (by simp)
    have inner := tolerancesOfItems_congr (groups.imp fun _ _ => tolerancesOfGroup_congr)
    rw [Grammar.tolerances, Grammar.tolerances, defaults, tolerancesOfEntries_eq, tolerancesOfEntries_eq, inner]

/-! ### Whole documents -/

/-- A document gives a specification exactly if it belongs to the grammar, its tolerances can be written, and
it can be read. -/
theorem toSpec_eq_ok_iff {v : Value} {s : Spec} :
    toSpec v = .ok s ↔ ∃ es, v = .dict es ∧
      (IsSpecification v ∧ ∀ t ∈ Grammar.tolerances v, t.Writable) ∧ readSpec es = .ok s := by
  constructor
  · intro h
    cases v with
    | map frozen es =>
      rw [toSpec] at h
      cases hv : validate (.map frozen es) with
      | error f =>
        rw [hv] at h
        cases h
      | ok u =>
        have belongs := validate_eq_ok_iff.1 hv
        rw [hv] at h
        obtain rfl : frozen = false := by
          obtain ⟨⟨⟩, -⟩ := belongs
          rfl
        refine ⟨es, rfl, belongs, ?_⟩
        cases hr : readSpec es with
        | error f =>
          rw [hr] at h
          cases h
        | ok t =>
          rw [hr] at h
          exact congrArg _ (Except.ok.inj h)
    | _ => cases h
  · rintro ⟨es, rfl, belongs, hr⟩
    rw [toSpec, validate_eq_ok_iff.2 belongs, hr]
    rfl

/-- The groups of a specification, and the tolerance in its defaults, are those of its document. -/
theorem groups_of_readSpec {es : List (Value × Value)} {s : Spec} (h : readSpec es = .ok s) :
    readGroups ((Value.dict es).itemsUnder "groups") = .ok s.groups ∧
      ReadsTolerance (defaultTolerance? (.dict es)) s.defaults.tolerance := by
  obtain ⟨name, -, h⟩ := bind_eq_ok_iff.1 h
  obtain ⟨version, -, h⟩ := bind_eq_ok_iff.1 h
  obtain ⟨capabilities, -, h⟩ := bind_eq_ok_iff.1 h
  obtain ⟨d, hd, h⟩ := bind_eq_ok_iff.1 h
  obtain ⟨gs, hgs, ⟨⟩⟩ := bind_eq_ok_iff.1 h
  refine ⟨hgs, ?_⟩
  have read := readsTolerance_of_defaultsOf false hd
  cases d with
  | none => exact read
  | some d => exact read

/-- **From a document to its cases.**  The tests of a document that gives a specification can be listed
in post-order, each once, and the cases belong to them one for one: each has from its own test and
from the levels around it what the document says there.  A document that is alike, and belongs to the
grammar, gives the same specification. -/
theorem toSpec_cases {v : Value} {s : Spec} (h : toSpec v = .ok s) :
    (∃ sites : List Site, (∀ a, a ∈ sites ↔ Site.In (v.itemsUnder "groups") a) ∧ sites.Nodup ∧
      sites.Pairwise Stand.Before ∧ List.Forall₂ (Carries v) sites s.cases) ∧
    ∀ w, AlikeDocuments v w → IsSpecification w → toSpec w = .ok s := by
  obtain ⟨es, rfl, ⟨belongs, written⟩, read⟩ := toSpec_eq_ok_iff.1 h
  constructor
  · obtain ⟨groups, defaults⟩ := groups_of_readSpec read
    obtain ⟨sites, all, nodup, ordered, reads⟩ := exists_sites groups
    refine ⟨sites, all, nodup, ordered, ?_⟩
    have cases : s.cases = (spotsFrom 0 s.groups).map (Spot.resolved [] s.defaults) :=
      casesOfAll_eq_map_spotsFrom [] s.defaults 0 s.groups
    rw [cases, List.forall₂_map_right_iff]
    refine reads.imp fun a spot ha => ?_
    exact ha.2.carries (ha.1.forms fun x hx => isGroup_of_isSpecification belongs hx) defaults
  · intro w alike belongs'
    have written' := tolerances_congr alike ▸ written
    cases alike with
    | mk same groups =>
      refine toSpec_eq_ok_iff.2 ⟨_, rfl, ⟨belongs', written'⟩, ?_⟩
      rw [← readSpec_congr (.mk same groups), read]

/-- A document with a test in a group and another in a group inside that one; only the inner test has a
tolerance and, as a null, metadata. -/
def nestedDocument : Value :=
  .dict [(.str "spec", .str "s"), (.str "version", .str "1"), (.str "note", .null),
    (.str "defaults", .dict [(.str "tolerance", .int 1)]),
    (.str "groups", .list [.dict [(.str "group", .str "g"),
      (.str "tests", .list [.dict [(.str "id", .str "own"), (.str "op", .str "o"),
        (.str "input", .null), (.str "expected", .null)]]),
      (.str "groups", .list [.dict [(.str "group", .str "h"), (.str "groups", .list []),
        (.str "tests", .list [.dict [(.str "id", .str "inner"), (.str "op", .str "o"),
          (.str "input", .null), (.str "expected", .int 2), (.str "meta", .null),
          (.str "tolerance", .int 0)]])]])]])]

theorem toSpec_cases_nested :
    ∃ s, toSpec nestedDocument = .ok s ∧
      (s.cases.map fun c => (c.test.id, c.test.metadata.map Value.isNull)) =
        [("inner", some true), ("own", none)] ∧
      ∃ sites : List Site, (∀ a, a ∈ sites ↔ Site.In (nestedDocument.itemsUnder "groups") a) ∧
        List.Forall₂ (Carries nestedDocument) sites s.cases := by
  have evaluated : ((toSpec nestedDocument).toOption.map fun s =>
      s.cases.map fun c => (c.test.id, c.test.metadata.map Value.isNull)) =
        some [("inner", some true), ("own", none)] := by
    decide +kernel
  cases h : toSpec nestedDocument with
  | error f =>
    rw [h] at evaluated
    cases evaluated
  | ok s =>
    rw [h] at evaluated
    obtain ⟨sites, all, -, -, carried⟩ := (toSpec_cases h).1
    exact ⟨s, rfl, Option.some.inj evaluated, sites, all, carried⟩

end Assay.Document
