import Assay.Proofs.Run.Completion
import Assay.Run.Basic
import Mathlib.Data.List.Forall2

/-!
# The course of a run

A run passes its first cases one after the other: each is evaluated in the state that the one before
it left, and the listener is told the verdict before the next is touched.  Then the run is done, or
the next case stops it.

* `Passes` — cases that are passed, `StopsAt` — a case that stops a run;
* `heldFrom_cases` — a run passes cases, and then it is done or stopped;
* `Operations.traced`, `Listener.traced` — all calls and all tellings noted in one log;
* `Traces` — cases that are passed, with what is noted of them;
* `course_ofAll` — what a run does, read off that log.
-/

namespace Assay

open Evaluation

variable {σ : Type}

/-- A case is what a held case reads as in some state. -/
def Held.Reads (h : Held σ) (c : Case) : Prop := ∃ s, c = h.read s

/-! ### Evaluations in a larger state -/

namespace Evaluation

/-- An operation is called: the case is not skipped, and the table has the operation. -/
def Calls (ops : Operations σ) (h : Held σ) : Prop := ¬ IsSkipped h.case ∧ ops h.case.test.op ≠ none

instance (ops : Operations σ) (h : Held σ) : Decidable (Calls ops h) :=
  decidable_of_iff ((skipText? h.case).isSome = false ∧ (ops h.case.test.op).isSome = true) <| by
    rw [Calls, isSkipped_iff, ← Option.isSome_iff_exists, Bool.not_eq_true, Option.isSome_iff_ne_none]

theorem calls_eq_ite (ops : Operations σ) (h : Held σ) (s : σ) :
    calls ops h s = if Calls ops h then [(h.case.test.op, h.input s)] else [] := by
  split
  · rename_i hc
    exact calls_eq_singleton hc.1 hc.2 s
  · rename_i hc
    rw [Calls, not_and_or, not_not, not_not] at hc
    exact calls_eq_nil hc s

/-- Operations on the first part of a pair leave the second as it is. -/
theorem ofHeld_onFirst {ρ : Type} (ops : Operations σ) (h : Held σ) (s : σ) (r : ρ) :
    ofHeld ops.onFirst h.onFirst (s, r) =
      ⟨(ofHeld ops h s).result, (ofHeld ops h s).awaited, ((ofHeld ops h s).state, r)⟩ := by
  have same (ks : List (String × Value)) : ks.foldl (fun r _ => r) r = r := by
    induction ks with
    | nil => rfl
    | cons k ks ih => exact ih
  rw [Operations.onFirst, ofHeld_noting, same]

/-- An evaluation without a verdict has called its operation. -/
theorem calls_of_error {ops : Operations σ} {h : Held σ} {s : σ} {k : Halt}
    (he : (ofHeld ops h s).result = .error k) : Calls ops h := by
  by_contra hn
  rw [Calls, not_and_or, not_not, not_not] at hn
  obtain ⟨v, hv⟩ := exists_verdict_of_not_comesTo (not_comesTo (s := s) hn)
  rw [hv] at he
  cases he

/-- An evaluation is ended exactly by an operation that ends the program. -/
theorem result_eq_ended_iff {ops : Operations σ} {h : Held σ} {s : σ} {e : Ending} :
    (ofHeld ops h s).result = .error (.ended e) ↔ ComesTo ops h s (.ended e) := by
  refine ⟨fun he => ?_, fun hc => hc.result⟩
  have results := results_result ops h s
  rw [he] at results
  cases results with
  | ended hc => exact hc

/-- An evaluation without a verdict is ended, or there is something that it cannot tell. -/
theorem halt_of_result {ops : Operations σ} {h : Held σ} {s : σ} {k : Halt}
    (hr : (ofHeld ops h s).result = .error k) :
    (∃ e, k = .ended e ∧ ComesTo ops h s (.ended e)) ∨ ∃ f, k = .fault f := by
  have results := results_result ops h s
  rw [hr] at results
  cases results with
  | ended hc => exact Or.inl ⟨_, rfl, hc⟩
  | untold f => exact Or.inr ⟨f, rfl⟩

end Evaluation

namespace Run

/-! ### Passing cases -/

/-- Cases that are passed one after the other, from a state to a state, with the verdicts told. -/
inductive Passes (ops : Operations σ) (listen : Listener σ) (total : Nat) :
    Nat → List (Held σ) → σ → List Verdict → σ → Prop
  | nil (index : Nat) (s : σ) : Passes ops listen total index [] s [] s
  | cons {index : Nat} {h : Held σ} {hs : List (Held σ)} {s t u : σ} {v : Verdict} {vs : List Verdict}
      (hv : (ofHeld ops h s).result = .ok v)
      (hl : listen v (index + 1) total (ofHeld ops h s).state = (t, none))
      (hp : Passes ops listen total (index + 1) hs t vs u) :
      Passes ops listen total index (h :: hs) s (v :: vs) u

/-- A case that stops a run: it comes to no verdict, or the listener stops the run at the verdict. -/
inductive StopsAt (ops : Operations σ) (listen : Listener σ) (total index : Nat) (h : Held σ) (s : σ) :
    Halt → σ → Prop
  | evaluation {k : Halt} (hv : (ofHeld ops h s).result = .error k) :
      StopsAt ops listen total index h s k (ofHeld ops h s).state
  | listener {k : Halt} {v : Verdict} {t : σ} (hv : (ofHeld ops h s).result = .ok v)
      (hl : listen v (index + 1) total (ofHeld ops h s).state = (t, some k)) :
      StopsAt ops listen total index h s k t

section Steps

variable {ops : Operations σ} {listen : Listener σ} {total index : Nat} {h : Held σ} {hs : List (Held σ)}
  {s t : σ}

theorem heldFrom_of_error {k : Halt} (hv : (ofHeld ops h s).result = .error k) :
    heldFrom ops listen total index (h :: hs) s =
      ⟨[], awaitedNotes (ofHeld ops h s).awaited, (ofHeld ops h s).state, some k⟩ := by
  simp only [heldFrom, hv]

theorem heldFrom_of_halt {v : Verdict} {k : Halt} (hv : (ofHeld ops h s).result = .ok v)
    (hl : listen v (index + 1) total (ofHeld ops h s).state = (t, some k)) :
    heldFrom ops listen total index (h :: hs) s =
      ⟨[], awaitedNotes (ofHeld ops h s).awaited ++ [.judged v.case.label v.status], t, some k⟩ := by
  simp only [heldFrom, hv, hl]

theorem heldFrom_of_pass {v : Verdict} (hv : (ofHeld ops h s).result = .ok v)
    (hl : listen v (index + 1) total (ofHeld ops h s).state = (t, none)) :
    heldFrom ops listen total index (h :: hs) s =
      { heldFrom ops listen total (index + 1) hs t with
        verdicts := v :: (heldFrom ops listen total (index + 1) hs t).verdicts
        notes := awaitedNotes (ofHeld ops h s).awaited ++ [.judged v.case.label v.status] ++
          (heldFrom ops listen total (index + 1) hs t).notes } := by
  simp only [heldFrom, hv, hl]

end Steps

/-- **A run passes its first cases, and then it is done or the next one stops it.** -/
theorem heldFrom_cases (ops : Operations σ) (listen : Listener σ) (total : Nat) (hs : List (Held σ))
    (index : Nat) (s : σ) :
    let run := heldFrom ops listen total index hs s
    ∃ before after t, hs = before ++ after ∧ Passes ops listen total index before s run.verdicts t ∧
      (after = [] ∧ run.halt = none ∧ run.state = t ∨
        ∃ h rest k, after = h :: rest ∧ run.halt = some k ∧
          StopsAt ops listen total (index + before.length) h t k run.state) := by
  induction hs generalizing index s with
  | nil => exact ⟨[], [], s, rfl, .nil index s, Or.inl ⟨rfl, rfl, rfl⟩⟩
  | cons h hs ih =>
    dsimp only
    cases hv : (ofHeld ops h s).result with
    | error k =>
      rw [heldFrom_of_error hv]
      exact ⟨[], h :: hs, s, rfl, .nil index s, Or.inr ⟨h, hs, k, rfl, rfl, .evaluation hv⟩⟩
    | ok v =>
      rcases hl : listen v (index + 1) total (ofHeld ops h s).state with ⟨t, k | k⟩
      · rw [heldFrom_of_pass hv hl]
        obtain ⟨before, after, u, hhs, hp, hend⟩ := ih (index + 1) t
        refine ⟨h :: before, after, u, by rw [hhs, List.cons_append], .cons hv hl hp, ?_⟩
        rw [List.length_cons, ← Nat.add_assoc, Nat.add_right_comm]
        exact hend
      · rw [heldFrom_of_halt hv hl]
        exact ⟨[], h :: hs, s, rfl, .nil index s, Or.inr ⟨h, hs, k, rfl, rfl, .listener hv hl⟩⟩

/-- A run that nothing stops passes all its cases. -/
theorem passes_of_halt_eq_none {ops : Operations σ} {listen : Listener σ} {total index : Nat}
    {hs : List (Held σ)} {s : σ} (hn : (heldFrom ops listen total index hs s).halt = none) :
    Passes ops listen total index hs s (heldFrom ops listen total index hs s).verdicts
      (heldFrom ops listen total index hs s).state := by
  obtain ⟨before, after, t, hhs, hp, ⟨rfl, -, ht⟩ | ⟨h, rest, k, -, hk, -⟩⟩ :=
    heldFrom_cases ops listen total hs index s
  · rw [List.append_nil] at hhs
    rw [← hhs, ← ht] at hp
    exact hp
  · rw [hk] at hn
    cases hn

/-- A run whose cases are passed is stopped by nothing, and has their verdicts. -/
theorem heldFrom_of_passes {ops : Operations σ} {listen : Listener σ} {total index : Nat}
    {hs : List (Held σ)} {s t : σ} {vs : List Verdict} (hp : Passes ops listen total index hs s vs t) :
    (heldFrom ops listen total index hs s).halt = none ∧
      (heldFrom ops listen total index hs s).verdicts = vs ∧
        (heldFrom ops listen total index hs s).state = t := by
  induction hp with
  | nil => exact ⟨rfl, rfl, rfl⟩
  | cons hv hl _ ih =>
    rw [heldFrom_of_pass hv hl]
    exact ⟨ih.1, congrArg _ ih.2.1, ih.2.2⟩

/-- Each case that is passed has one verdict, which is on that case as it read then. -/
theorem Passes.reads {ops : Operations σ} {listen : Listener σ} {total index : Nat} {hs : List (Held σ)}
    {s t : σ} {vs : List Verdict} (hp : Passes ops listen total index hs s vs t) :
    List.Forall₂ (fun h v => h.Reads v.case) hs vs := by
  induction hp with
  | nil => exact .nil
  | cons hv _ _ ih => exact .cons ⟨_, (ruling_of_result hv).case⟩ ih

theorem Passes.length {ops : Operations σ} {listen : Listener σ} {total index : Nat}
    {hs : List (Held σ)} {s t : σ} {vs : List Verdict} (hp : Passes ops listen total index hs s vs t) :
    vs.length = hs.length :=
  hp.reads.length_eq.symm

end Run

/-! ### The log of a run -/

/-- What is seen of a run from outside. -/
inductive Event where
  | called (op : String) (input : Value)
  | told (v : Verdict) (index total : Nat)

/-- The call that an event is. -/
def Event.call? : Event → Option (String × Value)
  | .called op input => some (op, input)
  | .told _ _ _ => none

/-- The operations of a table, each call noted at the end of a log. -/
def Operations.traced (ops : Operations σ) : Operations (σ × List Event) :=
  ops.noting fun op input log => log ++ [.called op input]

/-- A listener that notes what it is told at the end of the log. -/
def Listener.traced (listen : Listener σ) : Listener (σ × List Event) := fun v index total t =>
  (((listen v index total t.1).1, t.2 ++ [.told v index total]), (listen v index total t.1).2)

namespace Run

/-- The event of a case whose operation is called: with its input as it reads in a state. -/
def callEvents (ops : Operations σ) (h : Held σ) (s : σ) : List Event :=
  if Calls ops h then [.called h.case.test.op (h.input s)] else []

/-- Cases that are passed one after the other, with what is noted of them: for each case its call, if
there is one, and then the telling of its verdict. -/
inductive Traces (ops : Operations σ) (effect : Verdict → Nat → Nat → σ → σ) (total : Nat) :
    Nat → List (Held σ) → σ → List Verdict → List Event → σ → Prop
  | nil (index : Nat) (s : σ) : Traces ops effect total index [] s [] [] s
  | cons {index : Nat} {h : Held σ} {hs : List (Held σ)} {s t : σ} {v : Verdict} {vs : List Verdict}
      {log : List Event} (hv : (ofHeld ops h s).result = .ok v)
      (ht : Traces ops effect total (index + 1) hs (effect v (index + 1) total (ofHeld ops h s).state) vs
        log t) :
      Traces ops effect total index (h :: hs) s (v :: vs)
        (callEvents ops h s ++ [.told v (index + 1) total] ++ log) t

theorem ofHeld_traced (ops : Operations σ) (h : Held σ) (s : σ) (log : List Event) :
    ofHeld ops.traced h.onFirst (s, log) = ⟨(ofHeld ops h s).result, (ofHeld ops h s).awaited,
      ((ofHeld ops h s).state, log ++ callEvents ops h s)⟩ := by
  rw [Operations.traced, ofHeld_noting, calls_eq_ite, callEvents]
  split
  · rfl
  · rw [List.append_nil]
    rfl

/-- Passing cases with a log is passing them, with their events noted. -/
theorem Passes.traces {ops : Operations σ} {effect : Verdict → Nat → Nat → σ → σ} {total index : Nat}
    {hs : List (Held σ)} {s : σ} {old : List Event} {vs : List Verdict} {b : σ × List Event}
    (hp : Passes ops.traced (Listener.always effect).traced total index (hs.map .onFirst) (s, old) vs b) :
    ∃ log, Traces ops effect total index hs s vs log b.1 ∧ b.2 = old ++ log := by
  induction hs generalizing index s old vs with
  | nil =>
    cases hp
    exact ⟨[], .nil index s, (List.append_nil old).symm⟩
  | cons h hs ih =>
    cases hp with
    | cons hv hl rest =>
      rw [ofHeld_traced] at hv hl
      obtain ⟨rfl, -⟩ := Prod.mk.inj hl
      obtain ⟨log, traced, noted⟩ := ih rest
      refine ⟨_, .cons hv traced, ?_⟩
      rw [noted]
      simp only [List.append_assoc]

/-- Where a listener never stops the run, a case that does has made its call and come to no verdict. -/
theorem StopsAt.of_traced {ops : Operations σ} {effect : Verdict → Nat → Nat → σ → σ}
    {total index : Nat} {h : Held σ} {log : List Event} {t : σ} {k : Halt} {u : σ × List Event}
    (hs : StopsAt ops.traced (Listener.always effect).traced total index h.onFirst (t, log) k u) :
    (ofHeld ops h t).result = .error k ∧
      u = ((ofHeld ops h t).state, log ++ [.called h.case.test.op (h.input t)]) := by
  have result : (ofHeld ops.traced h.onFirst (t, log)).result = .error k ∧
      u = (ofHeld ops.traced h.onFirst (t, log)).state := by
    generalize k = k', u = u' at hs ⊢
    cases hs with
    | evaluation hv => exact ⟨hv, rfl⟩
    | listener _ hl => cases (Prod.mk.inj hl).2
  rw [ofHeld_traced] at result
  have called : Calls ops h := calls_of_error result.1
  rw [callEvents, if_pos called] at result
  exact result

/-- A call is made of a case: of the operation that it names, with the input as it reads in some state. -/
def IsCallOf (k : String × Value) (h : Held σ) : Prop := k.1 = h.case.test.op ∧ ∃ s, k.2 = h.input s

theorem isCallOf_callEvents (ops : Operations σ) (h : Held σ) (s : σ) :
    List.Forall₂ IsCallOf ((callEvents ops h s).filterMap Event.call?) ([h].filter (Calls ops ·)) := by
  rw [callEvents]
  by_cases hc : Calls ops h
  · rw [if_pos hc, List.filter_cons_of_pos (by simpa using hc)]
    exact .cons ⟨rfl, s, rfl⟩ .nil
  · rw [if_neg hc, List.filter_cons_of_neg (by simpa using hc)]
    exact .nil

/-- The calls among what is noted are those of the cases that call, in order, each once. -/
theorem Traces.calls {ops : Operations σ} {effect : Verdict → Nat → Nat → σ → σ} {total index : Nat}
    {hs : List (Held σ)} {s t : σ} {vs : List Verdict} {log : List Event}
    (ht : Traces ops effect total index hs s vs log t) :
    List.Forall₂ IsCallOf (log.filterMap Event.call?) (hs.filter (Calls ops ·)) := by
  induction ht with
  | nil => exact .nil
  | @cons index h hs s t v vs log hv _ ih =>
    rw [List.filterMap_append, List.filterMap_append, ← List.singleton_append (l := hs),
      List.filter_append]
    refine List.rel_append ?_ ih
    have told : [Event.told v (index + 1) total].filterMap Event.call? = [] := rfl
    rw [told, List.append_nil]
    exact isCallOf_callEvents ops h s

/-- Cases that are traced have a verdict each, on the case as it read then. -/
theorem Traces.reads {ops : Operations σ} {effect : Verdict → Nat → Nat → σ → σ} {total index : Nat}
    {hs : List (Held σ)} {s t : σ} {vs : List Verdict} {log : List Event}
    (ht : Traces ops effect total index hs s vs log t) :
    List.Forall₂ (fun h v => h.Reads v.case) hs vs := by
  induction ht with
  | nil => exact .nil
  | cons hv _ ih => exact .cons ⟨_, (ruling_of_result hv).case⟩ ih

/-! ### What a run does -/

/-- What a run with a log has done: it has passed its first cases, up to a state, and then it was done
or the next case stopped it. -/
structure Course (ops : Operations σ) (effect : Verdict → Nat → Nat → σ → σ) (hs : List (Held σ)) (s : σ)
    (run : Run (σ × List Event)) (log : List Event) (t : σ) : Prop where
  /-- One evaluation and one telling for each case that is passed, in order. -/
  passed : Traces ops effect hs.length 0 (hs.take run.verdicts.length) s run.verdicts log t
  /-- The verdicts stand in order, one for each of these cases. -/
  cases : List.Forall₂ (fun h v => h.Reads v.case) (hs.take run.verdicts.length) run.verdicts
  /-- The calls are those of the cases that call, in order, each once. -/
  calls : List.Forall₂ IsCallOf (run.state.2.filterMap Event.call?)
    ((hs.take (run.verdicts.length + 1)).filter (Calls ops ·))
  /-- The run is done with all cases, or a case that comes to no verdict has ended it: then that case
  has made the last call, and nothing was told after it. -/
  ending :
    run.halt = none ∧ run.verdicts.length = hs.length ∧ run.state = (t, log) ∨
      ∃ h k, run.halt = some k ∧ hs[run.verdicts.length]? = some h ∧
        (ofHeld ops h t).result = .error k ∧ (∀ e, k = .ended e ↔ ComesTo ops h t (.ended e)) ∧
          run.state = ((ofHeld ops h t).state, log ++ [.called h.case.test.op (h.input t)])

/-- **A run passes its cases one at a time and in order, and an ending stops it where it stands.**
The operations and the listener share a state, and what they do is noted in one log.  Operations may
change what the cases hold. -/
theorem course_ofAll (ops : Operations σ) (effect : Verdict → Nat → Nat → σ → σ) (hs : List (Held σ))
    (s : σ) : ∃ log t, Course ops effect hs s
      (ofAll ops.traced (Listener.always effect).traced (hs.map .onFirst) (s, [])) log t := by
  obtain ⟨passed', after', ⟨t, log⟩, hmap, hp, hend⟩ :=
    heldFrom_cases ops.traced (Listener.always effect).traced hs.length (hs.map .onFirst) 0 (s, [])
  obtain ⟨before, after, hhs, rfl, rfl⟩ := List.map_eq_append_iff.1 hmap
  rw [ofAll, List.length_map]
  generalize heldFrom ops.traced (Listener.always effect).traced hs.length 0 (hs.map .onFirst) (s, [])
    = run at *
  obtain ⟨log', traced, noted⟩ := hp.traces
  obtain rfl : log = log' := noted
  have length : run.verdicts.length = before.length := traced.reads.length_eq.symm
  have taken : hs.take run.verdicts.length = before := by
    rw [hhs, length, List.take_left]
  refine ⟨log, t, by rw [taken]; exact traced, by rw [taken]; exact traced.reads, ?_, ?_⟩
  · rcases hend with ⟨hnil, -, hstate⟩ | ⟨h', rest', k, hafter, -, hstop⟩
    · obtain rfl := List.map_eq_nil_iff.1 hnil
      rw [List.append_nil] at hhs
      rw [hstate, length, hhs, List.take_of_length_le (Nat.le_succ _)]
      exact traced.calls
    · obtain ⟨h, rest, rfl, rfl, rfl⟩ := List.map_eq_cons_iff.1 hafter
      obtain ⟨result, state⟩ := hstop.of_traced
      have called : Calls ops h := calls_of_error result
      have next : hs.take (run.verdicts.length + 1) = before ++ [h] := by
        rw [hhs, length, List.take_length_add_append]
        rfl
      rw [state, next, List.filterMap_append, List.filter_append]
      refine List.rel_append traced.calls ?_
      rw [List.filter_cons_of_pos (by simpa using called)]
      exact .cons ⟨rfl, t, rfl⟩ .nil
  · rcases hend with ⟨hnil, hnone, hstate⟩ | ⟨h', rest', k, hafter, hsome, hstop⟩
    · obtain rfl := List.map_eq_nil_iff.1 hnil
      rw [List.append_nil] at hhs
      exact Or.inl ⟨hnone, length.trans (congrArg _ hhs.symm), hstate⟩
    · obtain ⟨h, rest, rfl, rfl, rfl⟩ := List.map_eq_cons_iff.1 hafter
      obtain ⟨result, state⟩ := hstop.of_traced
      have next : hs[run.verdicts.length]? = some h := by
        rw [hhs, length, List.getElem?_append_right (Nat.le_refl _), Nat.sub_self,
          List.getElem?_cons_zero]
      refine Or.inr ⟨h, k, hsome, next, result, fun e => ?_, state⟩
      rw [← result_eq_ended_iff, result, Except.error.injEq]

end Run

end Assay
