import Assay.Proofs.Related
import Assay.Proofs.Spec.PostOrder
import Assay.Spec.Document

/-!
# The tests of a document

A site is a place of a document where a test stands, read off the document before anything is made of
it.  Reading the groups of a document takes its sites to the spots of the groups, number by number.

* `Site.In` — the sites in a list of groups of a document;
* `Reads` — a spot that is read from a site;
* `exists_spot_of_site`, `exists_site_of_spot` — reading loses no site and makes up no spot;
* `exists_sites` — the sites of a document in post-order, and the spots read from them.
-/

namespace Assay

/-! ### Names of a document -/

namespace Value

/-- The value under a name; only mappings have names. -/
def named? (name : String) : Value → Option Value
  | .map _ es => field name es
  | _ => none

/-- The items of the list under a name; an absent list has none, like an empty one. -/
def itemsUnder (name : String) (v : Value) : List Value :=
  match v.named? name with
  | some (.list xs) => xs
  | _ => []

end Value

namespace Document

/-! ### Sites -/

/-- A place in the tree of a document. -/
abbrev Site := Stand Value Value

/-- The sites of a list of groups of a document. -/
abbrev Site.In (xs : List Value) (a : Site) : Prop :=
  Stand.In (Value.itemsUnder "groups") (Value.itemsUnder "tests") xs a

/-! ### Reading lists -/

theorem mapM_eq_ok_iff {α β : Type} {f : α → Except Fault β} {xs : List α} {ys : List β} :
    xs.mapM f = .ok ys ↔ List.Forall₂ (fun x y => f x = .ok y) xs ys := by
  induction xs generalizing ys with
  | nil =>
    rw [List.mapM_nil, List.forall₂_nil_left_iff]
    exact ⟨fun h => (Except.ok.inj h).symm, fun h => congrArg _ h.symm⟩
  | cons x xs ih =>
    rw [List.mapM_cons, bind_eq_ok_iff]
    constructor
    · rintro ⟨y, hy, h⟩
      obtain ⟨rest, hrest, ⟨⟩⟩ := bind_eq_ok_iff.1 h
      exact .cons hy (ih.1 hrest)
    · intro h
      cases h with
      | cons hy hrest => exact ⟨_, hy, bind_eq_ok_iff.2 ⟨_, ih.2 hrest, rfl⟩⟩

theorem readGroups_eq_mapM (xs : List Value) : readGroups xs = xs.mapM readGroup := by
  induction xs with
  | nil => rfl
  | cons x xs ih => rw [readGroups, List.mapM_cons, ih]

theorem readTests_eq_mapM (xs : List Value) : readTests xs = xs.mapM readTest := by
  induction xs with
  | nil => rfl
  | cons x xs ih => rw [readTests, List.mapM_cons, ih]

/-! ### Reading tolerances -/

/-- What is read from a tolerance that may be absent. -/
def ReadsTolerance : Option Value → Option Tolerance → Prop :=
  Option.Rel fun v t => Tolerance.ofValue v = .ok t

/-- The tolerance in the defaults of a level. -/
def defaultTolerance? (v : Value) : Option Value := (v.named? "defaults").bind (Value.named? "tolerance")

theorem readsTolerance_of_toleranceOf {es : List (Value × Value)} {t : Option Tolerance}
    (h : toleranceOf es = .ok t) : ReadsTolerance (Value.field "tolerance" es) t := by
  unfold toleranceOf at h
  cases hv : Value.field "tolerance" es with
  | none =>
    rw [hv] at h
    obtain rfl := Except.ok.inj h
    exact .none
  | some v =>
    rw [hv] at h
    obtain ⟨u, hu, rfl⟩ := map_eq_ok_iff.1 h
    exact .some hu

theorem readsTolerance_of_defaultsOf (frozen : Bool) {es : List (Value × Value)} {d : Option Defaults}
    (h : defaultsOf es = .ok d) :
    ReadsTolerance (defaultTolerance? (.map frozen es)) (d.bind Defaults.tolerance) := by
  have entry : defaultTolerance? (.map frozen es) =
      (Value.field "defaults" es).bind (Value.named? "tolerance") := rfl
  rw [entry]
  unfold defaultsOf at h
  split at h
  · rename_i ds hds
    rw [hds]
    obtain ⟨r, hr, rfl⟩ := map_eq_ok_iff.1 h
    obtain ⟨t, ht, ⟨⟩⟩ := bind_eq_ok_iff.1 hr
    exact readsTolerance_of_toleranceOf ht
  · rename_i other
    obtain rfl := Except.ok.inj h
    cases hds : Value.field "defaults" es with
    | none => exact .none
    | some v =>
      cases v with
      | map frozen ds => exact absurd hds (other frozen ds)
      | _ => exact .none

/-! ### Reading groups -/

/-- What is read from a group of a document: its name, the tolerance in its defaults, the groups
inside it and its tests. -/
structure GroupRead (x : Value) (g : Group) : Prop where
  name : ∀ v, x.named? "group" = some v → v.text = .ok g.name
  tolerance : ReadsTolerance (defaultTolerance? x) (g.defaults.bind Defaults.tolerance)
  groups : readGroups (x.itemsUnder "groups") = .ok g.groups
  tests : readTests (x.itemsUnder "tests") = .ok g.tests

theorem groupsIn_eq (frozen : Bool) (es : List (Value × Value)) :
    groupsIn es = readGroups ((Value.map frozen es).itemsUnder "groups") := by
  have found : groupsIn es = (Value.field "groups" es).elim (.ok []) groupsOf := by
    induction es with
    | nil => rfl
    | cons e es ih =>
      obtain ⟨k, v⟩ := e
      rw [groupsIn, Value.field, Value.lookup]
      split
      · rfl
      · exact ih
  rw [found, Value.itemsUnder, Value.named?]
  cases Value.field "groups" es with
  | none => rfl
  | some v => cases v <;> rfl

theorem groupRead_of_readGroup {x : Value} {g : Group} (h : readGroup x = .ok g) : GroupRead x g := by
  cases x with
  | map frozen es =>
    rw [readGroup] at h
    obtain ⟨name, hname, h⟩ := bind_eq_ok_iff.1 h
    obtain ⟨d, hd, h⟩ := bind_eq_ok_iff.1 h
    obtain ⟨gs, hgs, h⟩ := bind_eq_ok_iff.1 h
    obtain ⟨ts, hts, ⟨⟩⟩ := bind_eq_ok_iff.1 h
    refine ⟨?_, readsTolerance_of_defaultsOf frozen hd, groupsIn_eq frozen es ▸ hgs, hts⟩
    intro v hv
    have needed : need "group" es = v := by
      rw [need, show Value.field "group" es = some v from hv, Option.getD_some]
    rw [needed] at hname
    exact hname
  | _ =>
    -- What is no mapping has no entries, and is read as a group without any.
    obtain rfl := Except.ok.inj h
    exact ⟨nofun, .none, rfl, rfl⟩

/-! ### Spots read from sites -/

/-- A spot that is read from a site. -/
structure Reads (a : Site) (s : Spot) : Prop where
  numbers : a.numbers = s.numbers
  index : a.index = s.index
  chain : List.Forall₂ GroupRead a.chain s.chain
  test : readTest a.test = .ok s.test

theorem Reads.under {a : Site} {s : Spot} (h : Reads a s) (i : Nat) {x : Value} {g : Group}
    (hg : GroupRead x g) : Reads (a.under i x) (s.under i g) :=
  ⟨congrArg (i :: ·) h.numbers, h.index, .cons hg h.chain, h.test⟩

theorem forall₂_of_readGroups {xs : List Value} {gs : List Group} (h : readGroups xs = .ok gs) :
    List.Forall₂ GroupRead xs gs := by
  rw [readGroups_eq_mapM, mapM_eq_ok_iff] at h
  exact h.imp fun _ _ => groupRead_of_readGroup

theorem forall₂_of_readTests {xs : List Value} {ts : List Test} (h : readTests xs = .ok ts) :
    List.Forall₂ (fun x t => readTest x = .ok t) xs ts := by
  rwa [readTests_eq_mapM, mapM_eq_ok_iff] at h

/-- **Reading loses no test.** -/
theorem exists_spot_of_site {xs : List Value} {gs : List Group} (h : readGroups xs = .ok gs) {a : Site}
    (ha : Site.In xs a) : ∃ s, Spot.In gs s ∧ Reads a s := by
  induction ha generalizing gs with
  | own hg ht =>
    obtain ⟨g, hg', group⟩ := exists_getElem?_right (forall₂_of_readGroups h) hg
    obtain ⟨t, ht', test⟩ := exists_getElem?_right (forall₂_of_readTests group.tests) ht
    exact ⟨_, .own hg' ht', rfl, rfl, .cons group .nil, test⟩
  | @inner xs i x a hg ha ih =>
    obtain ⟨g, hg', group⟩ := exists_getElem?_right (forall₂_of_readGroups h) hg
    obtain ⟨s, hs, reads⟩ := ih group.groups
    exact ⟨_, .inner hg' hs, reads.under i group⟩

/-- **Reading makes up no test.** -/
theorem exists_site_of_spot {xs : List Value} {gs : List Group} (h : readGroups xs = .ok gs) {s : Spot}
    (hs : Spot.In gs s) : ∃ a, Site.In xs a ∧ Reads a s := by
  induction hs generalizing xs with
  | own hg ht =>
    obtain ⟨x, hx, group⟩ := exists_getElem?_left (forall₂_of_readGroups h) hg
    obtain ⟨t, ht', test⟩ := exists_getElem?_left (forall₂_of_readTests group.tests) ht
    exact ⟨_, .own hx ht', rfl, rfl, .cons group .nil, test⟩
  | @inner gs i g s hg hs ih =>
    obtain ⟨x, hx, group⟩ := exists_getElem?_left (forall₂_of_readGroups h) hg
    obtain ⟨a, ha, reads⟩ := ih group.groups
    exact ⟨_, .inner hx ha, reads.under i group⟩

/-- **The sites of a list of groups can be listed in post-order, each once**, and the spots in their
order are read from them. -/
theorem exists_sites {xs : List Value} {gs : List Group} (h : readGroups xs = .ok gs) :
    ∃ sites : List Site, (∀ a, a ∈ sites ↔ Site.In xs a) ∧ sites.Nodup ∧ sites.Pairwise Stand.Before ∧
      List.Forall₂ (fun a s => Site.In xs a ∧ Reads a s) sites (spotsFrom 0 gs) := by
  have spots (s : Spot) : s ∈ spotsFrom 0 gs ↔ Spot.In gs s := by
    rw [mem_spotsFrom, Spot.inFrom_zero]
  obtain ⟨sites, hsites⟩ := exists_forall₂ (R := fun a s => Site.In xs a ∧ Reads a s)
    fun s hs => exists_site_of_spot h ((spots s).1 hs)
  have ordered : sites.Pairwise Stand.Before := by
    -- Post-order is one of numbers, and reading keeps these.
    have numbers : sites.map (fun a => (a.numbers, a.index)) =
        (spotsFrom 0 gs).map fun s => (s.numbers, s.index) := by
      rw [← List.forall₂_eq_eq_eq, List.forall₂_map_left_iff, List.forall₂_map_right_iff]
      exact hsites.imp fun a s has => Prod.ext has.2.numbers has.2.index
    have pairs : ((spotsFrom 0 gs).map fun s => (s.numbers, s.index)).Pairwise
        fun p q => Stand.Precedes p.1 p.2 q.1 q.2 :=
      List.pairwise_map.2 (spotsFrom_pairwise 0 gs)
    rw [← numbers, List.pairwise_map] at pairs
    exact pairs
  refine ⟨sites, ?_, ordered.imp Stand.Before.ne, ordered, hsites⟩
  intro a
  constructor
  · intro ha
    obtain ⟨s, -, has, -⟩ := exists_mem_right hsites ha
    exact has
  · intro ha
    obtain ⟨s, hs, reads⟩ := exists_spot_of_site h ha
    obtain ⟨b, hb, inXs, reads'⟩ := exists_mem_right hsites.flip ((spots s).2 hs)
    rw [ha.unique inXs (reads.numbers.trans reads'.numbers.symm) (reads.index.trans reads'.index.symm)]
    exact hb

end Document

end Assay
