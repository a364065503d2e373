import Assay.Value.Basic

/-!
# Type families

Values are compared within families: null, booleans, numbers, texts, mappings and sequences. Every
other class is a family of its own, named like the class.
-/

namespace Assay.Value

variable {τ : Type}

/-- A number that is not a boolean. -/
def isNumber (v : Value τ) : Bool :=
  match v.unwrapped with
  | .int _ => true
  | .float _ => true
  | _ => false

/-- The family of a value. -/
def family (v : Value τ) : String :=
  match v.unwrapped with
  | .null => "null"
  | .bool _ => "bool"
  | .int _ => "number"
  | .float _ => "number"
  | .str _ => "string"
  | .map _ _ => "object"
  | .list _ => "array"
  | .tuple _ => "array"
  | v => v.className

theorem family_of_isNumber {v : Value τ} (h : v.isNumber = true) : v.family = "number" := by
  unfold isNumber at h
  unfold family
  split at h <;> simp_all

@[simp] theorem family_list (xs : List (Value τ)) : family (.list xs) = "array" := rfl

@[simp] theorem family_tuple (xs : List (Value τ)) : family (.tuple xs) = "array" := rfl

@[simp] theorem family_map (frozen : Bool) (es : List (Value τ × Value τ)) :
    family (.map frozen es) = "object" := rfl

end Assay.Value
