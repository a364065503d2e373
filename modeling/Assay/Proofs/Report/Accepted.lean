import Assay.Proofs.Report.Completion
import Assay.Proofs.Report.Form
import Assay.Proofs.Spec.Sound

/-!
# Runs of an accepted document

The grammar at the one end and the form of reports at the other belong together: no case of an accepted
document takes one of the two ways of a comparison that are there for what is built by hand, and what
is reported of it always has the form of a report.

* `Value.Route` — the ways that a comparison can go, and `compare_eq_route` — it goes no other;
* `Run.Evaluates` — the evaluations of a run;
* `Spec.Accepted` — what holds for all cases of a specification and for all runs of them;
* `Document.accepted_of_toSpec` — it holds for every specification that is read from a document.
-/

namespace Assay

open Evaluation Report

/-! ### The ways of a comparison -/

namespace Value

/-- The ways that a comparison can go: the three modes, and the two that end in a fault. -/
inductive Route where
  | strict
  | deep
  | approx (t : Tolerance)
  | toleranceMissing
  | unknownMode

/-- The way that a comparison goes, by mode and tolerance alone. -/
def route (mode : Value) (tolerance : Option Tolerance) : Route :=
  match Mode.ofValue? mode with
  | some .strict => .strict
  | some .deep => .deep
  | some .approx =>
    match tolerance with
    | none => .toleranceMissing
    | some (.plain .null) => .toleranceMissing
    | some t => .approx t
  | none => .unknownMode

/-- What is found at the end of each way. -/
def compareBy (mode a b : Value) : Route → Except Fault Bool
  | .strict => strictEqual a b
  | .deep => deepEqual a b
  | .approx t => approxEqual t a b
  | .toleranceMissing => .error .toleranceMissing
  | .unknownMode => do .error (.unknownMode (← mode.text))

theorem compare_eq_route (mode : Value) (tolerance : Option Tolerance) (a b : Value) :
    compare mode tolerance a b = compareBy mode a b (route mode tolerance) := by
  unfold compare route
  cases Mode.ofValue? mode with
  | none => rfl
  | some m =>
    cases m with
    | strict => rfl
    | deep => rfl
    | approx =>
      cases tolerance with
      | none => rfl
      | some t =>
        cases t with
        | plain v => cases v <;> rfl
        | structured a r fs => rfl

/-- A way that ends in a comparison; an approximate one has a sound tolerance. -/
inductive Route.IsSound : Route → Prop
  | strict : IsSound .strict
  | deep : IsSound .deep
  | approx {t : Tolerance} (h : t.IsSound) : IsSound (.approx t)

end Value

/-- A sound case that does not lack a tolerance is compared. -/
theorem Case.IsSound.route {c : Case} (h : c.IsSound) (hl : ¬ LacksTolerance c) :
    (Value.route c.compare (effectiveTolerance c)).IsSound := by
  obtain ⟨m, hm⟩ := isMode_iff_ofValue?.1 h.compare
  unfold Value.route
  rw [hm]
  cases m with
  | strict => exact .strict
  | deep => exact .deep
  | approx =>
    have given : c.hasTolerance = true := by
      rw [lacksTolerance_iff] at hl
      simpa [hm] using hl
    rw [effectiveTolerance, if_pos given]
    have sound := h.tolerance
    rw [Case.hasTolerance] at given
    cases ht : c.tolerance with
    | none =>
      rw [ht] at given
      cases given
    | some t =>
      have here := sound t ht
      cases here with
      | plain hx => exact .approx (.plain hx)
      | structured habs hrel hfields => exact .approx (.structured habs hrel hfields)

/-! ### Evaluations of a run -/

/-- In a run of cases from a state, the case is evaluated in the state `t`: it is the first, or those
before it have been passed. -/
inductive Run.Evaluates {σ : Type} (ops : Operations σ) (listen : Listener σ) (total : Nat) :
    Nat → List (Held σ) → σ → Held σ → σ → Prop
  | first (index : Nat) (h : Held σ) (hs : List (Held σ)) (s : σ) :
      Evaluates ops listen total index (h :: hs) s h s
  | later {index : Nat} {h h' : Held σ} {hs : List (Held σ)} {s t u : σ} {v : Verdict}
      (hv : (ofHeld ops h s).result = .ok v)
      (hl : listen v (index + 1) total (ofHeld ops h s).state = (t, none))
      (he : Evaluates ops listen total (index + 1) hs t h' u) :
      Evaluates ops listen total index (h :: hs) s h' u

theorem Run.Evaluates.mem {σ : Type} {ops : Operations σ} {listen : Listener σ} {total index : Nat}
    {hs : List (Held σ)} {s t : σ} {h : Held σ} (he : Evaluates ops listen total index hs s h t) :
    h ∈ hs := by
  induction he with
  | first => exact List.mem_cons_self
  | later _ _ _ ih => exact List.mem_cons_of_mem _ ih

/-- What a case reads as is sound if the case is. -/
theorem Held.Reads.isSound {σ : Type} {h : Held σ} {c : Case} (hr : h.Reads c) (hs : h.case.IsSound) :
    c.IsSound := by
  obtain ⟨s, rfl⟩ := hr
  exact ⟨hs.compare, hs.path, hs.xfail, hs.tolerance⟩

/-! ### Reports -/

/-- The records of verdicts on sound cases have the form of records. -/
theorem Report.complaint?_of_isSound {vs : List Verdict} {records : List Record}
    (hrec : List.Forall₂ (fun v r => Record.ofVerdict v = .ok r) vs records)
    (h : ∀ v ∈ vs, v.case.IsSound) : complaint? records = none := by
  rw [complaint?_eq_none_iff]
  intro r hr
  obtain ⟨v, hv, record⟩ := exists_mem_right hrec.flip hr
  obtain ⟨actual, -, rfl⟩ := Record.ofVerdict_eq_ok record
  obtain ⟨m, hm⟩ := isMode_iff_ofValue?.1 (h v hv).compare
  obtain ⟨b, hb⟩ := (h v hv).xfail
  exact Record.fits_iff.2 ⟨b, m, hb, hm⟩

/-- Records without a complaint are not unfit, whatever else keeps them from being rendered. -/
theorem Report.render_ne_unfit {time name version : String} {vs : List Verdict} {records : List Record}
    (h : complaint? records = none) (m : String) :
    render time name version vs records ≠ .error (.unfit m) := by
  rw [render, h]
  cases recordTrees records <;> simp

namespace Job

variable {σ : Type} {j : Job σ} {d : Desk}

theorem isSound_of_mem_verdicts (h : (j.run d).run.halt = none) (hj : ∀ x ∈ j.held, x.case.IsSound) :
    ∀ v ∈ (j.run d).run.verdicts, v.case.IsSound := by
  intro v hv
  obtain ⟨x, hx, reads⟩ := exists_mem_right (passes_of_halt_eq_none h).1.reads.flip hv
  exact Held.Reads.isSound reads (hj x hx)

/-- No job of sound cases is stopped because a report does not fit. -/
theorem halt_ne_unfit (hj : ∀ x ∈ j.held, x.case.IsSound) (m : String) :
    (j.run d).halt ≠ some (.unfit m) := by
  intro unfit
  cases stops_of_halt unfit with
  | unrendered done hrec hr =>
    have fit := complaint?_of_isSound hrec (isSound_of_mem_verdicts done hj)
    exact render_ne_unfit fit m hr

end Job

/-! ### The whole -/

/-- What holds for the cases of a specification, and for all runs of them in any selection and
order. -/
structure Spec.Accepted (s : Spec) : Prop where
  /-- What is in effect for a case is of its type. -/
  cases : ∀ c ∈ s.cases, c.IsSound
  /-- Whenever an evaluation of a run compares, the comparison goes one of the three ways. -/
  compares : ∀ (σ : Type) (ops : Operations σ) (listen : Listener σ) (hs : List (Held σ)) (start : σ),
    hs.map Held.case ⊆ s.cases → ∀ h t, Run.Evaluates ops listen hs.length 0 hs start h t →
      ∀ out answer, Compares ops h t out answer →
        (Value.route h.case.compare (effectiveTolerance h.case)).IsSound
  /-- What a file reporter is about to write has the form of a report. -/
  fits : ∀ (σ : Type) (j : Job σ) (d : Desk), j.spec = s → j.held.map Held.case ⊆ s.cases →
    (j.run d).run.halt = none → ∀ path title records,
      Reporter.file path title records ∈ (j.run d).run.state.2.reporters →
        IsPayload (payload j.time s.name s.version (j.run d).run.verdicts records)
  /-- So it is never turned down for its form. -/
  reported : ∀ (σ : Type) (j : Job σ) (d : Desk), j.spec = s → j.held.map Held.case ⊆ s.cases →
    ∀ m, (j.run d).halt ≠ some (.unfit m)

/-- **From the grammar to the form of reports.**  The cases of a document that is accepted are typed, no
run of them compares by an unknown mode or without a tolerance, and no report of them is turned down. -/
theorem Document.accepted_of_toSpec {v : Value} {s : Spec} (h : toSpec v = .ok s) : s.Accepted := by
  have sound := case_isSound_of_toSpec h
  refine ⟨sound, ?_, ?_, ?_⟩
  · intro σ ops listen hs start hcs h t evaluated out answer compared
    exact (sound h.case (hcs (List.mem_map_of_mem evaluated.mem))).route compared.2.2.1
  · intro σ j d _ hcs hn path title records hr
    have records := (Job.holds_of_halt_eq_none hn _ hr).2
    have cases := Job.isSound_of_mem_verdicts hn fun x hx => sound x.case (hcs (List.mem_map_of_mem hx))
    exact (complaint?_eq_none_iff_isPayload _ _ _ _ _).1 (complaint?_of_isSound records cases)
  · intro σ j d _ hcs m
    exact Job.halt_ne_unfit (fun x hx => sound x.case (hcs (List.mem_map_of_mem hx))) m

/-- A document whose one test is compared approximately, with a tolerance for a field and another inside
that one. -/
def tolerantDocument : Value :=
  .dict [(.str "spec", .str "s"), (.str "version", .str "1"),
    (.str "defaults", .dict [(.str "compare", .str "approx")]),
    (.str "groups", .list [.dict [(.str "group", .str "g"),
      (.str "tests", .list [.dict [(.str "id", .str "t"), (.str "op", .str "same"),
        (.str "input", .null), (.str "expected", .null), (.str "xfail", .bool true),
        (.str "tolerance", .dict [(.str "rel", .int 1), (.str "fields", .dict [(.str "x",
          .dict [(.str "fields", .dict [(.int 0, .float (.nan 0))])])])])]])]])]

theorem Document.accepted_of_toSpec_tolerant :
    ∃ s, toSpec tolerantDocument = .ok s ∧
      (s.cases.map fun c => (c.label, Mode.ofValue? c.compare, c.hasTolerance, c.test.xfail.truth)) =
        [("g/t", some .approx, true, true)] ∧ s.Accepted := by
  have evaluated : ((toSpec tolerantDocument).toOption.map fun s => s.cases.map fun c =>
      (c.label, Mode.ofValue? c.compare, c.hasTolerance, c.test.xfail.truth)) =
        some [("g/t", some .approx, true, true)] := by
    decide +kernel
  cases h : toSpec tolerantDocument with
  | error f =>
    rw [h] at evaluated
    cases evaluated
  | ok s =>
    rw [h] at evaluated
    exact ⟨s, rfl, Option.some.inj evaluated, accepted_of_toSpec h⟩

end Assay
