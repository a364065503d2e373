import Assay.Proofs.Report.Session

/-!
# Running a selection

Where operations go by their inputs alone and leave alone what the cases hold, a verdict depends on its case
and on nothing else: not on the cases before it, its number, their number, or what listens.  A run is then
the verdicts of its cases one by one, so that to select cases and run them is to run all and select the
verdicts.  An operation that changes its input can change the input of another case, and then it is not.

* `Alike` — states in which the cases read alike;
* `Operations.Judges` — what is asked of the operations;
* `Run.Passes.verdicts`, `Operations.Judges.verdicts` — a run as the verdicts of its cases;
* `Spec.Selects` — what a selection has in common with the whole, and with the list of its cases;
* `Spec.selects_of_judges` — it does so for every matcher, and `not_selects_of_growing` — not without what
  is asked.
-/

namespace Assay

open Evaluation

variable {σ : Type}

/-- What operations come to depends on their inputs alone. -/
def Operations.IsSteady (ops : Operations σ) : Prop :=
  ∀ name f, ops name = some f → ∀ v s t, (f v s).1.outcome = (f v t).1.outcome

/-- The cases read alike in two states. -/
def Alike (hs : List (Held σ)) (s t : σ) : Prop := ∀ h ∈ hs, h.read s = h.read t

/-- What happens to the state leaves alone what the cases hold. -/
def Leaves (hs : List (Held σ)) (effect : Verdict → Nat → Nat → σ → σ) : Prop :=
  ∀ v index total s, Alike hs (effect v index total s) s

/-- Operations are steady, leave alone what the cases hold, and every evaluation of one of the cases gives a
verdict. -/
structure Operations.Judges (ops : Operations σ) (hs : List (Held σ)) : Prop where
  steady : ops.IsSteady
  leaves : ∀ name f, ops name = some f → ∀ v s, Alike hs (f v s).2 s
  handed : ∀ h ∈ hs, ∀ s, Alike hs (h.hand s) s
  verdict : ∀ h ∈ hs, ∀ s, ∃ v, (ofHeld ops h s).result = .ok v

namespace Alike

variable {hs hs' : List (Held σ)} {s t u : σ}

theorem refl (hs : List (Held σ)) (s : σ) : Alike hs s s := fun _ _ => rfl

theorem trans (h : Alike hs s t) (h' : Alike hs t u) : Alike hs s u :=
  fun x hx => (h x hx).trans (h' x hx)

end Alike

namespace Evaluation

variable {ops : Operations σ} {hs : List (Held σ)}

/-- An evaluation leaves the cases as they read. -/
theorem alike_ofHeld (hj : ops.Judges hs) {h : Held σ} (hh : h ∈ hs) (s : σ) :
    Alike hs (ofHeld ops h s).state s := by
  unfold ofHeld
  split
  · exact .refl hs s
  · split
    · exact .refl hs s
    · rename_i f hf
      exact (hj.leaves _ f hf _ _).trans (hj.handed h hh s)

/-- By steady operations a case has the same result in two states in which it reads alike, and goes on to do
so. -/
theorem result_of_steady (hst : ops.IsSteady) {h : Held σ} {s t : σ} (same : h.read s = h.read t)
    (left : h.read (ofHeld ops h s).state = h.read s) (right : h.read (ofHeld ops h t).state = h.read t) :
    (ofHeld ops h s).result = (ofHeld ops h t).result := by
  have input : h.input s = h.input t := congrArg (fun c => c.test.input) same
  rcases comesTo_cases ops h s with ⟨text, ht⟩ | ⟨ht, ho⟩ | ⟨o, hs, f, hf, hout⟩
  · rw [ofHeld_of_skip ht, ofHeld_of_skip ht, same]
  · unfold ofHeld
    simp only [ht, ho, same]
  · have here : ComesTo ops h s o := ⟨hs, f, hf, hout⟩
    have there : ComesTo ops h t o := by
      refine ⟨hs, f, hf, ?_⟩
      rw [← input, hst _ f hf (h.input s) (h.hand t) (h.hand s)]
      exact hout
    rw [here.result, there.result, left, right, same]

theorem result_congr (hj : ops.Judges hs) {h : Held σ} (hh : h ∈ hs) {s t : σ} (same : h.read s = h.read t) :
    (ofHeld ops h s).result = (ofHeld ops h t).result :=
  result_of_steady hj.steady same (alike_ofHeld hj hh s h hh) (alike_ofHeld hj hh t h hh)

/-- The verdict of a case in a state; where there is none, that of a case that is skipped. -/
def verdictIn (ops : Operations σ) (s : σ) (h : Held σ) : Verdict :=
  match (ofHeld ops h s).result with
  | .ok v => v
  | .error _ => ⟨h.read s, .skip, none, none, none⟩

theorem result_eq_verdictIn (hj : ops.Judges hs) {h : Held σ} (hh : h ∈ hs) (s : σ) :
    (ofHeld ops h s).result = .ok (verdictIn ops s h) := by
  obtain ⟨v, hv⟩ := hj.verdict h hh s
  rw [verdictIn, hv]

theorem verdictIn_case (hj : ops.Judges hs) {h : Held σ} (hh : h ∈ hs) (s : σ) :
    (verdictIn ops s h).case = h.read s :=
  (ruling_of_result (result_eq_verdictIn hj hh s)).case.trans (alike_ofHeld hj hh s h hh)

theorem verdictIn_congr (hj : ops.Judges hs) {h : Held σ} (hh : h ∈ hs) {s t : σ} (alike : Alike hs s t) :
    verdictIn ops s h = verdictIn ops t h := by
  have same := result_congr hj hh (alike h hh)
  rw [result_eq_verdictIn hj hh, result_eq_verdictIn hj hh] at same
  exact Except.ok.inj same

end Evaluation

/-! ### Runs, case by case -/

namespace Run

variable {ops : Operations σ} {hs some : List (Held σ)}

/-- The verdicts of cases that are passed are those that they have at the start. -/
theorem Passes.verdicts {effect : Verdict → Nat → Nat → σ → σ} {total index : Nat} {s t : σ}
    {vs : List Verdict} (hp : Passes ops (.always effect) total index some s vs t) (hj : ops.Judges hs)
    (he : Leaves hs effect) (sub : some ⊆ hs) : vs = some.map (verdictIn ops s) := by
  induction hp with
  | nil => rfl
  | @cons index h rest s t u v vs hv hl _ ih =>
    obtain ⟨here, later⟩ := List.cons_subset.1 sub
    obtain ⟨rfl, -⟩ := Prod.mk.inj hl
    have alike : Alike hs (effect v (index + 1) total (ofHeld ops h s).state) s :=
      (he v _ total _).trans (alike_ofHeld hj here s)
    rw [result_eq_verdictIn hj here] at hv
    rw [ih later, List.map_cons, Except.ok.inj hv]
    exact congrArg _ (List.map_congr_left fun x hx => verdictIn_congr hj (later hx) alike)

/-- A listener that never stops a run leaves only the evaluations to do so. -/
theorem halt_of_judges (hj : ops.Judges hs) (sub : some ⊆ hs) (effect : Verdict → Nat → Nat → σ → σ) (s : σ) :
    (ofAll ops (.always effect) some s).halt = none := by
  obtain ⟨before, after, t, hsome, -, ⟨-, halt, -⟩ | ⟨h, rest, k, rfl, -, stop⟩⟩ :=
    heldFrom_cases ops (.always effect) some.length some 0 s
  · exact halt
  · have mem : h ∈ hs := sub (hsome ▸ List.mem_append_right before List.mem_cons_self)
    generalize (heldFrom ops (.always effect) some.length 0 some s).state = u at stop
    cases stop with
    | evaluation hv =>
      rw [result_eq_verdictIn hj mem] at hv
      cases hv
    | listener _ hl => cases hl

end Run

/-- **The verdicts of some of the cases are those that they have at the start of any run**, from any state
in which the cases read alike. -/
theorem Operations.Judges.verdicts {ops : Operations σ} {hs some : List (Held σ)} (hj : ops.Judges hs)
    (sub : some ⊆ hs) {effect : Verdict → Nat → Nat → σ → σ} (he : Leaves hs effect) {s t : σ}
    (alike : Alike hs s t) :
    (Run.ofAll ops (.always effect) some s).verdicts = some.map (verdictIn ops t) := by
  have passed := Run.passes_of_halt_eq_none (Run.halt_of_judges hj sub effect s)
  exact (passed.verdicts hj he sub).trans
    (List.map_congr_left fun x hx => verdictIn_congr hj (sub hx) alike)

/-- So are the verdicts of a job that is not stopped, whatever its reporters. -/
theorem Job.verdicts_of_judges {j : Job σ} {d : Report.Desk} {hs : List (Held σ)} (hj : j.ops.Judges hs)
    (sub : j.held ⊆ hs) (h : (j.run d).halt = none) :
    (j.run d).run.verdicts = j.held.map (verdictIn j.ops j.state) :=
  (passes_of_halt_eq_none (run_halt_of_halt h)).1.verdicts hj (fun _ _ _ _ => .refl hs _) sub

/-! ### Selections -/

/-- Whether one of the patterns matches a case. -/
def Case.isMatched (isMatch : String → String → Bool) (patterns : List String) (c : Case) : Bool :=
  patterns.any fun p => isMatch p c.label

namespace Held

variable (isMatch : String → String → Bool)

theorem selectBy_eq_filter {patterns : List String} (h : patterns ≠ []) (hs : List (Held σ)) :
    selectBy isMatch patterns hs = hs.filter fun x => x.case.isMatched isMatch patterns := by
  rw [selectBy, if_neg (by simpa using h)]
  rfl

theorem selectBy_subset (patterns : List String) (hs : List (Held σ)) : selectBy isMatch patterns hs ⊆ hs := by
  by_cases h : patterns = []
  · rw [h]
    exact List.Subset.refl hs
  · rw [selectBy_eq_filter isMatch h]
    exact List.filter_sublist.subset

/-- To select twice is to select once. -/
theorem selectBy_selectBy (patterns : List String) (hs : List (Held σ)) :
    selectBy isMatch patterns (selectBy isMatch patterns hs) = selectBy isMatch patterns hs := by
  by_cases h : patterns = []
  · rw [h]
    rfl
  · rw [selectBy_eq_filter isMatch h, selectBy_eq_filter isMatch h, List.filter_filter]
    simp only [Bool.and_self]

/-- Joined patterns keep what either list keeps. -/
theorem selectBy_append {ps qs : List String} (hp : ps ≠ []) (hs : List (Held σ)) :
    selectBy isMatch (ps ++ qs) hs =
      hs.filter fun x => x.case.isMatched isMatch ps || x.case.isMatched isMatch qs := by
  rw [selectBy_eq_filter isMatch (List.append_ne_nil_of_left_ne_nil hp qs)]
  exact List.filter_congr fun x _ => List.any_append

end Held

/-- What a selection of the cases of a specification, as a memory holds them, has in common with all of
them. -/
structure Spec.Selects (isMatch : String → String → Bool) (spec : Spec) (m : Memory σ) (ops : Operations σ) :
    Prop where
  /-- A run of all cases has a verdict on each, as it reads at the start, in order. -/
  whole : ∀ effect s, Leaves (m.hold spec.cases) effect →
    (Run.ofAll ops (.always effect) (m.hold spec.cases) s).verdicts.map Verdict.case =
      (m.hold spec.cases).map fun h => h.read s
  /-- Without patterns all cases are selected. -/
  all : Held.selectBy isMatch [] (m.hold spec.cases) = m.hold spec.cases
  /-- The verdicts of a selection are those verdicts of a run of all cases whose case is matched, in
  their order. -/
  selected : ∀ patterns ≠ [], ∀ effect effect' s s', Leaves (m.hold spec.cases) effect →
    Leaves (m.hold spec.cases) effect' → Alike (m.hold spec.cases) s s' →
    (Run.ofAll ops (.always effect) (Held.selectBy isMatch patterns (m.hold spec.cases)) s).verdicts =
      (Run.ofAll ops (.always effect') (m.hold spec.cases) s').verdicts.filter fun v =>
        v.case.isMatched isMatch patterns
  /-- Cases taken at any places, in any order, get the verdicts at these places: increasing places make
  a sublist, and all places in another order a permutation. -/
  taken : ∀ (places : List Nat) effect effect' s s', Leaves (m.hold spec.cases) effect →
    Leaves (m.hold spec.cases) effect' → Alike (m.hold spec.cases) s s' →
    (Run.ofAll ops (.always effect) (places.filterMap ((m.hold spec.cases)[·]?)) s).verdicts =
      places.filterMap ((Run.ofAll ops (.always effect') (m.hold spec.cases) s').verdicts[·]?)
  /-- To select twice is to select once. -/
  again : ∀ patterns (hs : List (Held σ)), Held.selectBy isMatch patterns (Held.selectBy isMatch patterns hs) =
    Held.selectBy isMatch patterns hs
  /-- To select with two lists of patterns joined is to keep what either keeps. -/
  joined : ∀ ps ≠ [], ∀ qs ≠ [], ∀ hs : List (Held σ), Held.selectBy isMatch (ps ++ qs) hs =
    hs.filter fun x => x.case.isMatched isMatch ps || x.case.isMatched isMatch qs
  /-- To list is to print the labels of the selected cases and to exit with 0, whatever the operations
  are: none is called. -/
  listed : ∀ time (o : Options) (ops' : Operations σ) s,
    Session.runIn m isMatch time spec ops' { o with listOnly := true } s =
      ⟨.ok 0, ⟨[], (Case.selectBy isMatch o.select spec.cases).map Case.label, []⟩, none⟩
  /-- The same session without the listing, if it returns, evaluates the cases that are listed, in that
  order, and their verdicts are those of any run of the selection. -/
  returned : ∀ time (o : Options) s code,
    (Session.runIn m isMatch time spec ops { o with listOnly := false } s).result = .ok code →
      ∃ r, (Session.runIn m isMatch time spec ops { o with listOnly := false } s).run = some r ∧
        (Session.runIn m isMatch time spec ops { o with listOnly := true } s).desk.printed =
          (r.verdicts.map Verdict.case).map Case.label ∧
        ∀ effect t, Leaves (m.hold spec.cases) effect → Alike (m.hold spec.cases) t s →
          r.verdicts = (Run.ofAll ops (.always effect)
            (Held.selectBy isMatch o.select (m.hold spec.cases)) t).verdicts

/-- **To select and run is to run and select**, for every matcher. -/
theorem Spec.selects_of_judges {spec : Spec} {m : Memory σ} {ops : Operations σ}
    (hj : ops.Judges (m.hold spec.cases)) (isMatch : String → String → Bool) :
    spec.Selects isMatch m ops := by
  have whole : m.hold spec.cases ⊆ m.hold spec.cases := List.Subset.refl _
  have kept (patterns : List String) :
      Held.selectBy isMatch patterns (m.hold spec.cases) ⊆ m.hold spec.cases :=
    Held.selectBy_subset isMatch patterns _
  have listed (time : String) (o : Options) (ops' : Operations σ) (s : σ) :
      Session.runIn m isMatch time spec ops' { o with listOnly := true } s =
        ⟨.ok 0, ⟨[], (Case.selectBy isMatch o.select spec.cases).map Case.label, []⟩, none⟩ := by
    rw [← Session.map_case_selected m isMatch spec o, List.map_map]
    rfl
  refine ⟨?_, rfl, ?_, ?_, Held.selectBy_selectBy isMatch, ?_, listed, ?_⟩
  · intro effect s he
    rw [hj.verdicts whole he (.refl _ s), List.map_map]
    exact List.map_congr_left fun h hh => verdictIn_case hj hh s
  · intro patterns hp effect effect' s s' he he' alike
    rw [hj.verdicts (kept patterns) he alike, hj.verdicts whole he' (.refl _ s'),
      Held.selectBy_eq_filter isMatch hp, List.filter_map]
    refine congrArg _ (List.filter_congr fun h hh => ?_)
    rw [Function.comp_apply, verdictIn_case hj hh]
    rfl
  · intro places effect effect' s s' he he' alike
    have taken : places.filterMap ((m.hold spec.cases)[·]?) ⊆ m.hold spec.cases := by
      intro h hh
      obtain ⟨i, -, hi⟩ := List.mem_filterMap.1 hh
      exact List.mem_of_getElem? hi
    rw [hj.verdicts taken he alike, hj.verdicts whole he' (.refl _ s'), List.map_filterMap]
    simp only [List.getElem?_map]
  · intro ps hp qs _ hs
    exact Held.selectBy_append isMatch hp hs
  · intro time o s code hc
    obtain ⟨rs, -, halt, hr, -⟩ := (Session.ends_runIn m isMatch time spec ops _ s).returns rfl hc
    refine ⟨_, hr, ?_, fun effect t he alike => ?_⟩
    · rw [listed, Job.verdicts_of_judges hj (kept o.select) halt, List.map_map, List.map_map,
        ← Session.map_case_selected m isMatch spec o, List.map_map]
      refine List.map_congr_left fun h hh => ?_
      exact (congrArg Case.label (verdictIn_case hj (kept o.select hh) s)).symm
    · rw [hj.verdicts (kept o.select) he alike]
      exact Job.verdicts_of_judges hj (kept o.select) halt

/-- Operations that give their input back and count their calls: their outcomes do not depend on the
count. -/
def counted : Operations Nat := fun name =>
  if name = "same" then some fun v n => (.value v, n + 1) else none

/-- Two tests: the operation of the first is there, that of the second is not. -/
def halfSpec : Spec :=
  { name := "probe", version := "1", groups := [.mk "g" none none [] [
    { id := "x", op := "same", input := .int 1, expected := .int 1 },
    { id := "y", op := "none", input := .int 1, expected := .int 1 }]] }

theorem isSteady_counted : counted.IsSteady := by
  intro name f hf v s t
  unfold counted at hf
  split at hf
  · cases hf
    rfl
  · cases hf

theorem mem_hold_still {cs : List Case} {h : Held σ} (hh : h ∈ (Memory.still : Memory σ).hold cs) :
    ∃ c ∈ cs, h = .still c := by
  rw [Memory.hold_still, List.mem_map] at hh
  obtain ⟨c, hc, rfl⟩ := hh
  exact ⟨c, hc, rfl⟩

theorem Spec.selects_of_judges_counted :
    counted.Judges (Memory.still.hold halfSpec.cases) ∧ halfSpec.cases.map Case.label = ["g/x", "g/y"] ∧
      halfSpec.Selects (fun pattern label => pattern == label) .still counted := by
  have judges : counted.Judges (Memory.still.hold halfSpec.cases) := by
    refine ⟨isSteady_counted, ?_, ?_, ?_⟩
    · intro name f _ v s h hh
      obtain ⟨c, -, rfl⟩ := mem_hold_still hh
      rfl
    · intro h hh s h' hh'
      obtain ⟨c, -, rfl⟩ := mem_hold_still hh'
      rfl
    · intro h hh s
      obtain ⟨c, hc, rfl⟩ := mem_hold_still hh
      have all : halfSpec.cases.all (fun c => (ofHeld counted (.still c) 0).result.isOk) = true := by
        decide +kernel
      have here := List.all_eq_true.1 all c hc
      rw [result_of_steady isSteady_counted (s := s) (t := 0) rfl rfl rfl]
      cases hv : (ofHeld counted (.still c) 0).result with
      | ok v => exact ⟨v, rfl⟩
      | error k =>
        rw [hv] at here
        cases here
  exact ⟨judges, by decide +kernel, selects_of_judges judges _⟩

/-- An operation that appends a zero to its input and gives the length, where the state is what the one list
of all cases holds. -/
def growing : Operations (List Int) := fun name =>
  if name = "grow" then some fun _ xs => (.value (.int (xs.length + 1 : Nat)), xs ++ [0]) else none

/-- A memory in which the inputs of all cases are one list. -/
def sharedList : Memory (List Int) where
  input _ _ xs := .list (xs.map .int)
  expected _ v _ := v
  hand _ _ xs := xs

/-- Two tests that grow their input, and expect a length of two. -/
def growSpec : Spec :=
  { name := "probe", version := "1", groups := [.mk "g" none none [] [
    { id := "a", op := "grow", input := .list [.int 1], expected := .int 2 },
    { id := "b", op := "grow", input := .list [.int 1], expected := .int 2 }]] }

/-- **What changes its input is not selected from**: in a run of both tests the second one fails, and in a run
of the second alone it passes. -/
theorem not_selects_of_growing :
    let hs := sharedList.hold growSpec.cases
    (Run.ofAll growing .silent hs [1]).verdicts.map Verdict.status = [.pass, .fail] ∧
      (Run.ofAll growing .silent (Held.selectBy (fun pattern label => pattern == label) ["g/b"] hs)
        [1]).verdicts.map Verdict.status = [.pass] := by
  decide +kernel

end Assay
