import Mathlib.Data.List.Forall2
import Assay.Spec.Case

/-!
# Cases in post-order and what they inherit

A test stands in a tree of groups at a place with numbers.  Those places and their post-order are stated
for any tree, by what groups a group has inside it and what tests of its own.  A spot is such a place in
the tree of a specification.  This file ties the cases of a list of groups to its spots:

* `Stand.In` — the places in a list of groups, read off the tree by the numbers of groups and tests;
* `Stand.Before` — post-order, by the numbers of two places alone;
* `spotsFrom` — all spots in a list, `mem_spotsFrom` and `spotsFrom_pairwise` say that none is
  missing and that they come in post-order;
* `below_key` — laying defaults over one another down a chain of groups gives each key its value at
  the innermost level that has it;
* `flattened_resolves` — the cases are the spots in post-order, one for one, and each case has what
  the innermost level says.
-/

namespace Assay

/-- A place in a list of groups and what stands there: the number of a group in the list, then the
number of a group inside that one and so on, these groups themselves, the number of a test in the
last of them, and that test. -/
structure Stand (γ τ : Type) where
  numbers : List Nat
  chain : List γ
  index : Nat
  test : τ

namespace Stand

variable {γ τ : Type} {groups : γ → List γ} {tests : γ → List τ}

/-- The same place seen from outside a group, which has a number among its neighbours. -/
def under (i : Nat) (g : γ) (s : Stand γ τ) : Stand γ τ :=
  { s with numbers := i :: s.numbers, chain := g :: s.chain }

/-- The places in a list of groups: the tests of a group itself, and the places in the groups
inside it. -/
inductive In (groups : γ → List γ) (tests : γ → List τ) : List γ → Stand γ τ → Prop
  | own {gs : List γ} {i j : Nat} {g : γ} {t : τ} (hg : gs[i]? = some g)
      (ht : (tests g)[j]? = some t) : In groups tests gs ⟨[i], [g], j, t⟩
  | inner {gs : List γ} {i : Nat} {g : γ} {s : Stand γ τ} (hg : gs[i]? = some g)
      (hs : In groups tests (groups g) s) : In groups tests gs (s.under i g)

theorem In.numbers_ne_nil {gs : List γ} {s : Stand γ τ} (h : In groups tests gs s) : s.numbers ≠ [] := by
  cases h <;> simp [under]

/-- The numbers of a place say which place it is. -/
theorem In.unique {gs : List γ} {s u : Stand γ τ} (hs : In groups tests gs s)
    (hu : In groups tests gs u) (hn : s.numbers = u.numbers) (hi : s.index = u.index) : s = u := by
  induction hs generalizing u with
  | @own gs i j g t hg ht =>
    cases hu with
    | own hg' ht' =>
      obtain ⟨rfl, -⟩ := List.cons.inj hn
      obtain rfl := Option.some.inj (hg.symm.trans hg')
      obtain rfl : j = _ := hi
      obtain rfl := Option.some.inj (ht.symm.trans ht')
      rfl
    | inner _ hu => exact absurd (List.cons.inj hn).2.symm hu.numbers_ne_nil
  | @inner gs i g s hg hs ih =>
    cases hu with
    | own _ _ => exact absurd (List.cons.inj hn).2 hs.numbers_ne_nil
    | inner hg' hu =>
      obtain ⟨rfl, rest⟩ := List.cons.inj hn
      obtain rfl := Option.some.inj (hg.symm.trans hg')
      rw [ih hu rest hi]

/-- Post-order on the numbers of groups and the index of a test: an earlier group comes first, and
the groups inside a group come before its own tests. -/
def Precedes : List Nat → Nat → List Nat → Nat → Prop
  | i :: is, m, k :: ks, n => i < k ∨ (i = k ∧ Precedes is m ks n)
  | _ :: _, _, [], _ => True
  | [], m, [], n => m < n
  | [], _, _ :: _, _ => False

theorem not_precedes_self (is : List Nat) (m : Nat) : ¬ Precedes is m is m := by
  induction is with
  | nil => exact Nat.lt_irrefl m
  | cons i is ih =>
    rintro (h | ⟨-, h⟩)
    · exact Nat.lt_irrefl i h
    · exact ih h

/-- Post-order. -/
def Before (s u : Stand γ τ) : Prop := Precedes s.numbers s.index u.numbers u.index

/-- No place comes before itself. -/
theorem Before.ne {s u : Stand γ τ} (h : Before s u) : s ≠ u := by
  rintro rfl
  exact not_precedes_self _ _ h

theorem Before.under {s u : Stand γ τ} (h : Before s u) (i : Nat) (g : γ) :
    Before (s.under i g) (u.under i g) :=
  Or.inr ⟨rfl, h⟩

theorem before_of_lt {s u : Stand γ τ} {i k : Nat} {is ks : List Nat} (hs : s.numbers = i :: is)
    (hu : u.numbers = k :: ks) (h : i < k) : Before s u := by
  rw [Before, hs, hu]
  exact Or.inl h

theorem before_of_inner {s u : Stand γ τ} {i : Nat} {is : List Nat} (hs : s.numbers = i :: is)
    (hu : u.numbers = []) : Before s u := by
  rw [Before, hs, hu]
  exact trivial

end Stand

/-- A place in the tree of a specification. -/
abbrev Spot := Stand Group Test

namespace Spot

/-- The spots of a list of groups. -/
abbrev In (gs : List Group) (s : Spot) : Prop := Stand.In Group.groups Group.tests gs s

/-- What the levels around a spot say, innermost first; the level that everything inherits is
last. -/
def levels (inherited : Option Defaults) (s : Spot) : List (Option Defaults) :=
  s.chain.reverse.map Group.defaults ++ [inherited]

/-- The value of a key at the innermost level that has it. -/
def innermost {α : Type} (key : Defaults → Option α) (levels : List (Option Defaults)) : Option α :=
  levels.findSome? fun level => level.bind key

/-- The comparison values that the levels around a spot and its test have. -/
def Says (inherited : Option Defaults) (s : Spot) (v : Value) : Prop :=
  s.test.compare = some v ∨ ∃ d, some d ∈ s.levels inherited ∧ d.compare = some v

end Spot

/-! ### All spots in a list -/

/-- The tests of a group as spots inside it. -/
def ownSpots (ts : List Test) : List Spot := ts.zipIdx.map fun p => ⟨[], [], p.2, p.1⟩

mutual

/-- The spots inside a group, in post-order, without the group itself. -/
def Group.spots : Group → List Spot
  | .mk _ _ _ gs ts => spotsFrom 0 gs ++ ownSpots ts

/-- The spots of a list of groups that are numbered from `i`, in post-order. -/
def spotsFrom : Nat → List Group → List Spot
  | _, [] => []
  | i, g :: gs => g.spots.map (Stand.under i g) ++ spotsFrom (i + 1) gs

end

theorem mem_ownSpots {ts : List Test} {s : Spot} :
    s ∈ ownSpots ts ↔ ∃ j t, ts[j]? = some t ∧ s = ⟨[], [], j, t⟩ := by
  simp only [ownSpots, List.mem_map, Prod.exists, List.mem_zipIdx_iff_getElem?]
  constructor
  · rintro ⟨t, j, h, rfl⟩
    exact ⟨j, t, h, rfl⟩
  · rintro ⟨j, t, h, rfl⟩
    exact ⟨t, j, h, rfl⟩

/-- The spots of a list of groups that is numbered from `k`: the first number is counted from there. -/
def Spot.InFrom (k : Nat) (gs : List Group) (s : Spot) : Prop :=
  ∃ u, Spot.In gs u ∧ ∃ i is, u.numbers = i :: is ∧ s = { u with numbers := (k + i) :: is }

theorem Spot.inFrom_zero {gs : List Group} {s : Spot} : Spot.InFrom 0 gs s ↔ Spot.In gs s := by
  constructor
  · rintro ⟨u, hu, i, is, hn, rfl⟩
    rw [Nat.zero_add, ← hn]
    exact hu
  · intro h
    obtain ⟨i, is, hn⟩ := List.exists_cons_of_ne_nil h.numbers_ne_nil
    refine ⟨s, h, i, is, hn, ?_⟩
    rw [Nat.zero_add, ← hn]

/-- A spot of a list of groups is one of the first group, or one of the others. -/
theorem Spot.inFrom_cons {k : Nat} {g : Group} {gs : List Group} {s : Spot} :
    Spot.InFrom k (g :: gs) s ↔
      (∃ u, (Spot.In g.groups u ∨ u ∈ ownSpots g.tests) ∧ s = u.under k g) ∨
        Spot.InFrom (k + 1) gs s := by
  constructor
  · rintro ⟨u, hu, i, is, hn, rfl⟩
    cases hu with
    | @own _ i' j g' t hg ht =>
      simp only [List.cons.injEq] at hn
      obtain ⟨rfl, rfl⟩ := hn
      cases i' with
      | zero =>
        simp only [List.getElem?_cons_zero, Option.some.injEq] at hg
        subst hg
        exact Or.inl ⟨⟨[], [], j, t⟩, Or.inr (mem_ownSpots.2 ⟨j, t, ht, rfl⟩), by simp [Stand.under]⟩
      | succ n =>
        right
        refine ⟨⟨[n], [g'], j, t⟩, .own (by simpa using hg) ht, n, [], rfl, ?_⟩
        rw [Nat.add_right_comm, Nat.add_assoc]
    | @inner _ i' g' v hg hv =>
      simp only [Stand.under, List.cons.injEq] at hn
      obtain ⟨rfl, rfl⟩ := hn
      cases i' with
      | zero =>
        simp only [List.getElem?_cons_zero, Option.some.injEq] at hg
        subst hg
        exact Or.inl ⟨v, Or.inl hv, by simp [Stand.under]⟩
      | succ n =>
        right
        refine ⟨v.under n g', .inner (by simpa using hg) hv, n, v.numbers, rfl, ?_⟩
        simp only [Stand.under]
        rw [Nat.add_right_comm, Nat.add_assoc]
  · rintro (⟨u, hu | hu, rfl⟩ | ⟨u, hu, i, is, hn, rfl⟩)
    · exact ⟨u.under 0 g, .inner rfl hu, 0, u.numbers, rfl, rfl⟩
    · obtain ⟨j, t, ht, rfl⟩ := mem_ownSpots.1 hu
      exact ⟨⟨[0], [g], j, t⟩, .own rfl ht, 0, [], rfl, rfl⟩
    · cases hu with
      | @own _ i' j g' t hg ht =>
        simp only [List.cons.injEq] at hn
        obtain ⟨rfl, rfl⟩ := hn
        refine ⟨⟨[i' + 1], [g'], j, t⟩, .own (by simpa using hg) ht, i' + 1, [], rfl, ?_⟩
        rw [Nat.add_right_comm, Nat.add_assoc]
      | @inner _ i' g' v hg hv =>
        simp only [Stand.under, List.cons.injEq] at hn
        obtain ⟨rfl, rfl⟩ := hn
        refine ⟨v.under (i' + 1) g', .inner (by simpa using hg) hv, i' + 1, v.numbers, rfl, ?_⟩
        simp only [Stand.under]
        rw [Nat.add_right_comm, Nat.add_assoc]

mutual

/-- The spots inside a group are those of the groups inside it and its own tests. -/
theorem mem_spots : ∀ (g : Group) (s : Spot),
    s ∈ g.spots ↔ Spot.In g.groups s ∨ s ∈ ownSpots g.tests
  | .mk n d ds gs ts, s => by
    rw [Group.spots, List.mem_append, mem_spotsFrom 0 gs s, Spot.inFrom_zero]
    rfl

/-- No spot of a list of groups is missing, and nothing else is listed. -/
theorem mem_spotsFrom : ∀ (k : Nat) (gs : List Group) (s : Spot),
    s ∈ spotsFrom k gs ↔ Spot.InFrom k gs s
  | k, [], s => by
    simp only [spotsFrom, List.not_mem_nil, false_iff]
    rintro ⟨u, hu, -⟩
    cases hu with
    | own hg => simp at hg
    | inner hg => simp at hg
  | k, g :: gs, s => by
    rw [spotsFrom, List.mem_append, mem_spotsFrom (k + 1) gs s, Spot.inFrom_cons, List.mem_map]
    simp only [mem_spots g, eq_comm (a := s)]

end

/-! ### Post-order -/

theorem ownSpots_pairwise (ts : List Test) : (ownSpots ts).Pairwise Stand.Before := by
  rw [ownSpots, List.pairwise_map]
  have sorted : ts.zipIdx.Pairwise fun p q => p.2 < q.2 := by
    rw [← List.pairwise_map (f := Prod.snd), List.zipIdx_map_snd]
    exact List.pairwise_lt_range'
  exact sorted.imp fun h => h

/-- The first number of a listed spot counts from the first number of the list. -/
theorem le_of_mem_spotsFrom {k : Nat} {gs : List Group} {s : Spot} (h : s ∈ spotsFrom k gs) :
    ∃ i is, s.numbers = i :: is ∧ k ≤ i := by
  obtain ⟨u, -, i, is, -, rfl⟩ := (mem_spotsFrom k gs s).1 h
  exact ⟨k + i, is, rfl, Nat.le_add_right k i⟩

mutual

theorem spots_pairwise : ∀ g : Group, g.spots.Pairwise Stand.Before
  | .mk n d ds gs ts => by
    rw [Group.spots, List.pairwise_append]
    refine ⟨spotsFrom_pairwise 0 gs, ownSpots_pairwise ts, ?_⟩
    intro s hs u hu
    obtain ⟨i, is, hi, -⟩ := le_of_mem_spotsFrom hs
    obtain ⟨j, t, -, rfl⟩ := mem_ownSpots.1 hu
    exact Stand.before_of_inner hi rfl

/-- The spots of a list of groups are listed in post-order. -/
theorem spotsFrom_pairwise : ∀ (k : Nat) (gs : List Group), (spotsFrom k gs).Pairwise Stand.Before
  | _, [] => List.Pairwise.nil
  | k, g :: gs => by
    rw [spotsFrom, List.pairwise_append, List.pairwise_map]
    refine ⟨(spots_pairwise g).imp fun h => h.under k g,
      spotsFrom_pairwise (k + 1) gs, ?_⟩
    intro s hs u hu
    obtain ⟨v, -, rfl⟩ := List.mem_map.1 hs
    obtain ⟨i, is, hi, hk⟩ := le_of_mem_spotsFrom hu
    exact Stand.before_of_lt rfl hi hk

end

/-! ### Inherited defaults -/

/-- The defaults in effect below a chain of groups. -/
def Defaults.below (d : Defaults) (chain : List Group) : Defaults :=
  chain.foldl (fun d g => d.overlay g.defaults) d

/-- A key is inherited by overlay when laying a level over another keeps the outer value just where
the inner level lacks the key. -/
def Inherited {α : Type} (key : Defaults → Option α) : Prop :=
  ∀ (outer : Defaults) (inner : Option Defaults), key (outer.overlay inner) = (inner.bind key <|> key outer)

theorem inherited_tolerance : Inherited Defaults.tolerance := by
  intro outer inner
  cases inner <;> rfl

theorem inherited_compare : Inherited Defaults.compare := by
  intro outer inner
  cases inner <;> rfl

/-- The last level is looked at only where no other has the key. -/
theorem innermost_append {α : Type} (key : Defaults → Option α) (levels : List (Option Defaults))
    (level : Option Defaults) :
    Spot.innermost key (levels ++ [level]) = (Spot.innermost key levels <|> level.bind key) := by
  simp only [Spot.innermost, List.findSome?_append, List.findSome?_cons, List.findSome?_nil]
  cases level.bind key <;> cases levels.findSome? (fun level => level.bind key) <;> rfl

/-- Below a chain of groups a key has its value at the innermost level. -/
theorem below_key {α : Type} {key : Defaults → Option α} (hkey : Inherited key) (chain : List Group)
    (d : Defaults) :
    key (d.below chain) = Spot.innermost key (chain.reverse.map Group.defaults ++ [some d]) := by
  induction chain generalizing d with
  | nil =>
    rw [innermost_append]
    rfl
  | cons g gs ih =>
    have step : d.below (g :: gs) = (d.overlay g.defaults).below gs := rfl
    rw [step, ih, List.reverse_cons, List.map_append, innermost_append, innermost_append,
      List.map_singleton, innermost_append, Option.bind_some, Option.bind_some, hkey]
    cases Spot.innermost key (gs.reverse.map Group.defaults) <;> rfl

/-- Where nothing is inherited, the empty defaults stand for it. -/
theorem innermost_getD {α : Type} {key : Defaults → Option α} (hkey : key {} = none)
    (levels : List (Option Defaults)) (inherited : Option Defaults) :
    Spot.innermost key (levels ++ [some (inherited.getD {})]) =
      Spot.innermost key (levels ++ [inherited]) := by
  rw [innermost_append, innermost_append]
  cases inherited with
  | none => rw [Option.getD_none, Option.bind_some, hkey, Option.bind_none]
  | some d => rfl

/-! ### The cases are the resolved spots -/

/-- The case that a spot resolves to below a path. -/
def Spot.resolved (path : List String) (d : Defaults) (s : Spot) : Case :=
  Case.resolve (path ++ s.chain.map Group.name) (d.below s.chain) s.test

theorem resolved_under (path : List String) (d : Defaults) (i : Nat) (g : Group) (s : Spot) :
    Spot.resolved path d (s.under i g) = s.resolved (path ++ [g.name]) (d.overlay g.defaults) := by
  simp [Spot.resolved, Stand.under, Defaults.below]

theorem map_resolved_ownSpots (path : List String) (d : Defaults) (ts : List Test) :
    (ownSpots ts).map (Spot.resolved path d) = ts.map (Case.resolve path d) := by
  have each : (fun p : Test × Nat => Spot.resolved path d ⟨[], [], p.2, p.1⟩) =
      Case.resolve path d ∘ Prod.fst := by
    funext p
    simp [Spot.resolved, Defaults.below]
  rw [ownSpots, List.map_map]
  show ts.zipIdx.map (fun p : Test × Nat => Spot.resolved path d ⟨[], [], p.2, p.1⟩) = _
  rw [each, ← List.map_map, List.zipIdx_map_fst]

mutual

theorem cases_eq_map_spots : ∀ (path : List String) (d : Defaults) (g : Group),
    Group.cases path d g = g.spots.map (Spot.resolved (path ++ [g.name]) (d.overlay g.defaults))
  | path, d, .mk n desc ds gs ts => by
    rw [Group.cases, Group.spots, List.map_append, map_resolved_ownSpots,
      casesOfAll_eq_map_spotsFrom (path ++ [n]) (d.overlay ds) 0 gs]
    rfl

/-- The cases of a list of groups are its spots, each resolved. -/
theorem casesOfAll_eq_map_spotsFrom : ∀ (path : List String) (d : Defaults) (k : Nat) (gs : List Group),
    Group.casesOfAll path d gs = (spotsFrom k gs).map (Spot.resolved path d)
  | _, _, _, [] => rfl
  | path, d, k, g :: gs => by
    rw [Group.casesOfAll, spotsFrom, List.map_append, List.map_map, cases_eq_map_spots path d g,
      casesOfAll_eq_map_spotsFrom path d (k + 1) gs]
    congr 1
    apply List.map_congr_left
    intro s _
    exact (resolved_under path d k g s).symm

end

/-! ### What a case has -/

/-- A value that is present and not null. -/
def given (v : Option Value) : Option Value := v.filter fun v => !v.isNull

/-- A null, or a text that is not empty. -/
def IsModeName (v : Value) : Prop := v = .null ∨ ∃ s, v.unwrapped = .str s ∧ s ≠ ""

/-- What the case at a spot has: its place, its own tolerance or else that of the innermost level
that has one, null included, and its own mode if it is set, or else that of the innermost level that
has the key if it is not null, or else the default. -/
structure Case.Resolves (path : List String) (inherited : Option Defaults) (s : Spot) (c : Case) :
    Prop where
  test : c.test = s.test
  groupPath : c.groupPath = path ++ s.chain.map Group.name
  tolerance : c.tolerance =
    (s.test.tolerance <|> Spot.innermost Defaults.tolerance (s.levels inherited))
  compare : (∀ v, s.Says inherited v → IsModeName v) →
    c.compare = ((given s.test.compare <|>
      given (Spot.innermost Defaults.compare (s.levels inherited))).getD (.str "strict"))

theorem firstSet_eq (a b : Option Value) : Case.firstSet a b = (given a <|> given b) := by
  cases a with
  | none => cases b with
    | none => rfl
    | some w => cases h : w.isNull <;> simp [Case.firstSet, given, h, Option.filter]
  | some v => cases hv : v.isNull <;> cases b with
    | none => simp [Case.firstSet, given, hv, Option.filter]
    | some w => cases h : w.isNull <;> simp [Case.firstSet, given, hv, h, Option.filter]

/-- A mode name that is given counts as true. -/
theorem truth_of_isModeName {v : Value} (h : IsModeName v) (hn : v.isNull = false) :
    v.truth = true := by
  rcases h with rfl | ⟨s, hs, hne⟩
  · simp [Value.isNull] at hn
  · cases v with
    | str t => simp_all [Value.unwrapped, Value.truth]
    | scalar e i => cases e <;> cases i <;> simp_all [Value.unwrapped, Value.truth, Value.itemTruth]
    | _ => simp [Value.unwrapped] at hs

theorem mem_given {a : Option Value} {v : Value} (h : given a = some v) :
    a = some v ∧ v.isNull = false := by
  simpa [given, Option.filter_eq_some_iff] using h

/-- A mode that is a name is kept as it is. -/
theorem modeOrDefault_eq {a : Option Value} (h : ∀ v, a = some v → v.truth = true) :
    Case.modeOrDefault a = a.getD (.str "strict") := by
  cases a with
  | none => rfl
  | some v => simp [Case.modeOrDefault, h v rfl]

/-- The innermost value of a key is the value of some level. -/
theorem mem_of_innermost {α : Type} {key : Defaults → Option α} {levels : List (Option Defaults)} {v : α}
    (h : Spot.innermost key levels = some v) : ∃ d, some d ∈ levels ∧ key d = some v := by
  obtain ⟨level, hl, hv⟩ := List.exists_of_findSome?_eq_some h
  obtain ⟨d, rfl, hd⟩ := Option.bind_eq_some_iff.1 hv
  exact ⟨d, hl, hd⟩

theorem resolved_resolves (path : List String) (inherited : Option Defaults) (s : Spot) :
    Case.Resolves path inherited s (s.resolved path (inherited.getD {})) where
  test := rfl
  groupPath := rfl
  tolerance := by
    show (s.test.tolerance <|> ((inherited.getD {}).below s.chain).tolerance) = _
    rw [below_key inherited_tolerance, innermost_getD rfl]
    rfl
  compare := by
    intro named
    show Case.modeOrDefault (Case.firstSet s.test.compare ((inherited.getD {}).below s.chain).compare) = _
    rw [below_key inherited_compare, innermost_getD rfl, firstSet_eq]
    apply modeOrDefault_eq
    intro v hv
    cases hg : given s.test.compare with
    | some w =>
      rw [hg] at hv
      cases hv
      obtain ⟨ho, hn⟩ := mem_given hg
      exact truth_of_isModeName (named v (Or.inl ho)) hn
    | none =>
      rw [hg] at hv
      obtain ⟨ho, hn⟩ := mem_given hv
      exact truth_of_isModeName (named v (Or.inr (mem_of_innermost ho))) hn

/-- **Every test of the tree becomes one case, in post-order.**  The spots of the groups can be listed
in post-order, each once, and the cases belong to them one for one. -/
theorem flattened_resolves (path : List String) (inherited : Option Defaults) (gs : List Group) :
    ∃ spots : List Spot,
      (∀ s, s ∈ spots ↔ Spot.In gs s) ∧ spots.Nodup ∧ spots.Pairwise Stand.Before ∧
        List.Forall₂ (Case.Resolves path inherited) spots (Group.flattened path inherited gs) := by
  refine ⟨spotsFrom 0 gs, ?_, ?_, spotsFrom_pairwise 0 gs, ?_⟩
  · intro s
    rw [mem_spotsFrom, Spot.inFrom_zero]
  · exact (spotsFrom_pairwise 0 gs).imp Stand.Before.ne
  · rw [Group.flattened, casesOfAll_eq_map_spotsFrom path (inherited.getD {}) 0 gs,
      List.forall₂_map_right_iff, List.forall₂_same]
    intro s _
    exact resolved_resolves path inherited s

end Assay
