import Assay.Value.Key

/-!
# JSON trees

What a JSON text says: objects keep all their members in order, and integers of any size are apart
from doubles. Read as a value, the last member of a name wins and stands at the place of the first.
-/

namespace Assay

/-- A JSON tree. -/
inductive Json (τ : Type := String) where
  | null
  | bool (b : Bool)
  | int (i : Int)
  | float (x : Double)
  | str (s : τ)
  | arr (items : List (Json τ))
  | obj (members : List (τ × Json τ))

namespace Json

variable {τ : Type}

instance : Inhabited (Json τ) := ⟨.null⟩

section

variable [DecidableEq τ]

mutual

/-- The value that a tree stands for. -/
def toValue : Json τ → Value τ
  | .null => .null
  | .bool b => .bool b
  | .int i => .int i
  | .float x => .float x
  | .str s => .str s
  | .arr xs => .list (toValues xs)
  | .obj ms => .dict (Value.ofPairs (toPairs ms))

/-- The values of a sequence of trees. -/
def toValues : List (Json τ) → List (Value τ)
  | [] => []
  | x :: xs => toValue x :: toValues xs

/-- The entries that members stand for, all of them in order. -/
def toPairs : List (τ × Json τ) → List (Value τ × Value τ)
  | [] => []
  | (k, v) :: ms => (.str k, toValue v) :: toPairs ms

end

/-- The last member of a name. -/
def member? (name : τ) : Json τ → Option (Json τ)
  | .obj ms => (ms.reverse.find? fun m => m.1 == name).map Prod.snd
  | _ => none

theorem toValues_eq_map (xs : List (Json τ)) : toValues xs = xs.map toValue := by
  induction xs with
  | nil => rfl
  | cons x xs ih => simp [toValues, ih]

theorem toPairs_eq_map (ms : List (τ × Json τ)) :
    toPairs ms = ms.map fun m => (.str m.1, toValue m.2) := by
  induction ms with
  | nil => rfl
  | cons m ms ih =>
    obtain ⟨k, v⟩ := m
    simp [toPairs, ih]

end

end Json

end Assay
