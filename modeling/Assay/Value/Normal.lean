import Assay.Value.Basic

/-!
# Normal values

A result is judged after numeric scalars and arrays have become plain values, tuples lists and
read-only mappings ordinary ones. A normal value is special when a float inside it is not finite.
-/

namespace Assay.Value

mutual

/-- The normal form of a value; keys are kept as they are. -/
def normalized : Value → Value
  | .list xs => .list (normalizedAll xs)
  | .tuple xs => .list (normalizedAll xs)
  | .map _ es => .dict (normalizedEntries es)
  | .scalar e i => e.plain i
  | .array _ v => normalized v
  | v => v

/-- The normal forms of a sequence. -/
def normalizedAll : List Value → List Value
  | [] => []
  | x :: xs => normalized x :: normalizedAll xs

/-- The entries of a mapping with normal values. -/
def normalizedEntries : List (Value × Value) → List (Value × Value)
  | [] => []
  | (k, v) :: es => (k, normalized v) :: normalizedEntries es

end

mutual

/-- Whether a float that is not finite stands in a value, in a sequence inside it or as a value of
a mapping inside it. -/
def isSpecial : Value → Bool
  | .float x => !x.isFinite
  | .scalar .double (.float x) => !x.isFinite
  | .list xs => anySpecial xs
  | .tuple xs => anySpecial xs
  | .map _ es => anyEntrySpecial es
  | _ => false

/-- Whether an item of a sequence is special. -/
def anySpecial : List Value → Bool
  | [] => false
  | x :: xs => isSpecial x || anySpecial xs

/-- Whether a value of a mapping is special. -/
def anyEntrySpecial : List (Value × Value) → Bool
  | [] => false
  | (_, v) :: es => isSpecial v || anyEntrySpecial es

end

theorem normalizedAll_eq_map (xs : List Value) : normalizedAll xs = xs.map normalized := by
  induction xs with
  | nil => rfl
  | cons x xs ih => simp [normalizedAll, ih]

/-- The keys of a mapping stay, in their order. -/
theorem normalizedEntries_keys (es : List (Value × Value)) :
    (normalizedEntries es).map Prod.fst = es.map Prod.fst := by
  induction es with
  | nil => rfl
  | cons e es ih =>
    obtain ⟨k, v⟩ := e
    simp [normalizedEntries, ih]

end Assay.Value
