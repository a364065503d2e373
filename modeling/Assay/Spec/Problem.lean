import Assay.Value.Literal

/-!
# Problems of a document

A problem is a place in a document and what is wrong there. Problems are told together, ordered by
their places; those of one place keep their order.
-/

namespace Assay

/-- What is wrong at a place. -/
inductive Complaint where
  | notOfType (v : Value) (type : String)
  | empty (v : Value)
  | missing (name : String)
  | unexpected (keys : List Value)
  | notListed (v : Value)
  | unfit (v : Value)

/-- A problem: a place, as the texts of the names and numbers that lead to it, and a complaint. -/
structure Problem where
  place : List String
  complaint : Complaint

namespace Complaint

/-- The wording of a complaint. -/
def message : Complaint → Except Fault String
  | .notOfType v type => do return (← v.literal) ++ s!" is not of type '{type}'"
  | .empty v => do return (← v.literal) ++ " should be non-empty"
  | .missing name => .ok (Text.quote name ++ " is a required property")
  | .unexpected keys => do
    let shown := ", ".intercalate (← Value.literals keys)
    let verb := if keys.length = 1 then "was" else "were"
    return "Additional properties are not allowed (" ++ shown ++ " " ++ verb ++ " unexpected)"
  | .notListed v => do return (← v.literal) ++ " is not one of ['strict', 'deep', 'approx']"
  | .unfit v => do return (← v.literal) ++ " is not valid under any of the given schemas"

end Complaint

/-- A problem as it is told: its place and the wording of its complaint. -/
structure Told where
  place : List String
  wording : String
deriving DecidableEq, Repr

/-- Order of two texts, by their characters. -/
def textLe (s t : String) : Bool := !decide (t < s)

namespace Problem

/-- A problem with its wording. -/
def tell (p : Problem) : Except Fault Told := do return ⟨p.place, ← p.complaint.message⟩

/-- Problems with their wordings. -/
def tellAll : List Problem → Except Fault (List Told)
  | [] => .ok []
  | p :: ps => do
    let t ← p.tell
    return t :: (← tellAll ps)

end Problem

namespace Told

/-- Order of two places, name by name; a place comes before those inside it. -/
def placeLe : List String → List String → Bool
  | [], _ => true
  | _ :: _, [] => false
  | s :: ss, t :: ts => if s = t then placeLe ss ts else textLe s t

/-- What is told, in the order of the places. -/
def sorted (ts : List Told) : List Told := ts.mergeSort fun a b => placeLe a.place b.place

/-- The line of what is told, after its place. -/
def line (t : Told) : String :=
  (if t.place.isEmpty then "root" else "/".intercalate t.place) ++ ": " ++ t.wording

end Told

end Assay
