import Assay.Spec.Selection

/-!
# Cases and their objects

The input and the expected value of a case are objects. An operation is handed the input itself, and may
change it or whatever else it can reach; several cases may share an object. So what a case holds is read
from the state, and it may read differently after each call.
-/

namespace Assay

/-- A case as it is held: its input and its expected value as they read in a state, and the state in which
the input has been handed out. -/
structure Held (σ : Type) where
  case : Case
  input : σ → Value
  expected : σ → Value
  hand : σ → σ

/-- How the objects of a list of cases read, for each case by its place in the list: what has become of the
input and of the expected value that it was made with, and what handing out the input does. -/
structure Memory (σ : Type) where
  input : Nat → Value → σ → Value
  expected : Nat → Value → σ → Value
  hand : Nat → Value → σ → σ

namespace Held

variable {σ : Type}

/-- The case as it reads in a state. -/
def read (h : Held σ) (s : σ) : Case :=
  { h.case with test := { h.case.test with input := h.input s, expected := h.expected s } }

/-- A case whose objects nothing changes. -/
def still (c : Case) : Held σ := ⟨c, fun _ => c.test.input, fun _ => c.test.expected, id⟩

/-- A held case on the first part of a pair. -/
def onFirst {ρ : Type} (h : Held σ) : Held (σ × ρ) :=
  ⟨h.case, fun t => h.input t.1, fun t => h.expected t.1, fun t => (h.hand t.1, t.2)⟩

/-- The held cases whose label matches one of the patterns, by a matcher. -/
def selectBy (isMatch : String → String → Bool) (patterns : List String) (hs : List (Held σ)) :
    List (Held σ) :=
  if patterns.isEmpty then hs
  else hs.filter fun h => patterns.any fun p => isMatch p h.case.label

theorem map_case_selectBy (isMatch : String → String → Bool) (patterns : List String)
    (hs : List (Held σ)) :
    (selectBy isMatch patterns hs).map Held.case = Case.selectBy isMatch patterns (hs.map Held.case) := by
  unfold selectBy Case.selectBy
  split
  · rfl
  · rw [List.filter_map]
    rfl

end Held

namespace Memory

variable {σ : Type}

/-- The memory that nothing changes. -/
def still : Memory σ := ⟨fun _ v _ => v, fun _ v _ => v, fun _ _ s => s⟩

/-- A case at a place, as a memory holds it. -/
def holdAt (m : Memory σ) (i : Nat) (c : Case) : Held σ :=
  ⟨c, m.input i c.test.input, m.expected i c.test.expected,
    m.hand i c.test.input⟩

/-- Cases, as a memory holds them. -/
def hold (m : Memory σ) (cs : List Case) : List (Held σ) := cs.mapIdx m.holdAt

@[simp] theorem map_case_hold (m : Memory σ) (cs : List Case) : (m.hold cs).map Held.case = cs := by
  refine List.ext_getElem? fun i => ?_
  rw [hold, List.getElem?_map, List.getElem?_mapIdx]
  cases cs[i]? <;> rfl

theorem hold_still (cs : List Case) : (still : Memory σ).hold cs = cs.map Held.still :=
  List.mapIdx_eq_iff.2 fun i => by
    rw [List.getElem?_map]
    rfl

end Memory

end Assay
