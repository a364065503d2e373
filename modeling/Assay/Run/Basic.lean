import Assay.Run.Evaluation

/-!
# Runs

A run evaluates cases one at a time, in order, and tells a listener each verdict before it goes on.
An ending or a fault stops it where it stands, and the listener may stop it as well. The operations
and the listener work on one state.
-/

namespace Assay

/-- What a run notes of its evaluations. -/
inductive Note where
  | awaited
  | judged (label : String) (status : Status)
deriving DecidableEq, Repr

/-- What a run has come to: the verdicts that the listener has been told, the notes, the state, and
what stopped it, if anything did. -/
structure Run (σ : Type) where
  verdicts : List Verdict
  notes : List Note
  state : σ
  halt : Option Halt

/-- A listener is told a verdict, its number from one, and the number of cases. It works on the state
that the operations work on, and may stop the run after what it has done. -/
abbrev Listener (σ : Type) := Verdict → Nat → Nat → σ → σ × Option Halt

namespace Listener

/-- The listener that has an effect and never stops the run. -/
def always {σ : Type} (effect : Verdict → Nat → Nat → σ → σ) : Listener σ :=
  fun v index total s => (effect v index total s, none)

/-- The listener that does nothing. -/
def silent {σ : Type} : Listener σ := always fun _ _ _ s => s

/-- A listener on the second part of a pair; it leaves the first as it is. -/
def onSecond {σ ρ : Type} (listen : Listener ρ) : Listener (σ × ρ) := fun v index total t =>
  let (after, halt) := listen v index total t.2
  ((t.1, after), halt)

end Listener

namespace Run

/-- The note of an awaited reply. -/
def awaitedNotes (b : Bool) : List Note := if b then [.awaited] else []

/-- Runs held cases that are numbered from `index + 1`, and tells each verdict before the next is touched. -/
def heldFrom {σ : Type} (ops : Operations σ) (listen : Listener σ) (total : Nat) :
    Nat → List (Held σ) → σ → Run σ
  | _, [], s => ⟨[], [], s, none⟩
  | index, h :: hs, s =>
    let e := Evaluation.ofHeld ops h s
    match e.result with
    | .error k => ⟨[], awaitedNotes e.awaited, e.state, some k⟩
    | .ok v =>
      let notes := awaitedNotes e.awaited ++ [.judged v.case.label v.status]
      match listen v (index + 1) total e.state with
      | (after, some k) => ⟨[], notes, after, some k⟩
      | (after, none) =>
        let rest := heldFrom ops listen total (index + 1) hs after
        { rest with verdicts := v :: rest.verdicts, notes := notes ++ rest.notes }

/-- Runs a list of held cases. -/
def ofAll {σ : Type} (ops : Operations σ) (listen : Listener σ) (hs : List (Held σ)) (s : σ) : Run σ :=
  heldFrom ops listen hs.length 0 hs s

/-- Runs a list of cases whose objects nothing changes. -/
def ofCases {σ : Type} (ops : Operations σ) (listen : Listener σ) (cs : List Case) (s : σ) : Run σ :=
  ofAll ops listen (cs.map .still) s

end Run

end Assay
