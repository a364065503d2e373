import Assay.Comparison.Mode
import Assay.Spec.Schema
import Assay.Value.Family

/-!
# The grammar of specification documents

One function for each form of the grammar lists the problems of a value at a place. A document
belongs to the grammar when it has none. A tolerance is held against two alternatives, and what does not
fit one of them is written out even if it fits the other.
-/

namespace Assay.Grammar

/-! ### Leaves -/

/-- A place inside another. -/
def inside (place : List String) (name : String) : List String := place ++ [name]

/-- A single problem. -/
def problem (place : List String) (c : Complaint) : List Problem := [⟨place, c⟩]

/-- A text. -/
def text (place : List String) (v : Value) : List Problem :=
  match v.asText? with
  | some _ => []
  | none => problem place (.notOfType v "string")

/-- A text that is not empty. -/
def nonEmptyText (place : List String) (v : Value) : List Problem :=
  match v.asText? with
  | some s => if s = "" then problem place (.empty v) else []
  | none => problem place (.notOfType v "string")

/-- A truth value. -/
def truthValue (place : List String) (v : Value) : List Problem :=
  match v with
  | .bool _ => []
  | v => problem place (.notOfType v "boolean")

/-- A comparison mode. -/
def mode (place : List String) (v : Value) : List Problem :=
  match Mode.ofValue? v with
  | some _ => []
  | none => problem place (.notListed v)

/-- Whether a double is below zero; not-a-number is not. -/
def belowZero : Double → Bool
  | .finite s m => s && m.val ≠ 0
  | .infinite s => s
  | .nan _ => false

/-- A number that is not below zero; a boolean is none. -/
def isBound (v : Value) : Bool :=
  match v with
  | .int i => 0 ≤ i
  | .float x => !belowZero x
  | .scalar _ (.int i) => 0 ≤ i
  | .scalar _ (.float x) => !belowZero x
  | _ => false

/-- A list whose items have no problem by themselves; items are numbered from zero. -/
def items (place : List String) (item : List String → Value → List Problem) :
    Nat → List Value → List Problem
  | _, [] => []
  | i, x :: xs => item (inside place (toString i)) x ++ items place item (i + 1) xs

/-- A list of items of one form. -/
def listOf (item : List String → Value → List Problem) (place : List String) (v : Value) :
    List Problem :=
  match v with
  | .list xs => items place item 0 xs
  | v => problem place (.notOfType v "array")

/-! ### Tolerances -/

/-- The name that a key is. -/
def nameOf : Value → Option String := Value.textKey?

mutual

/-- Whether a value is a tolerance: a bound, or a mapping of at most two bounds and of fields that
are tolerances. -/
def isTolerance : Value → Bool
  | .map false es => areToleranceEntries es
  | v => isBound v

/-- Whether all entries belong to a tolerance. -/
def areToleranceEntries : List (Value × Value) → Bool
  | [] => true
  | (k, v) :: es =>
    (match nameOf k with
      | some "abs" => isBound v
      | some "rel" => isBound v
      | some "fields" => areFields v
      | _ => false) && areToleranceEntries es

/-- Whether a value is a mapping to tolerances. -/
def areFields : Value → Bool
  | .map false es => areFieldEntries es
  | _ => false

/-- Whether the values of all entries are tolerances. -/
def areFieldEntries : List (Value × Value) → Bool
  | [] => true
  | (_, v) :: es => isTolerance v && areFieldEntries es

end

/-- A tolerance. -/
def tolerance (place : List String) (v : Value) : List Problem :=
  if isTolerance v then [] else problem place (.unfit v)

/-! ### Mappings with named entries -/

/-- The complaints about names that must be there. -/
def required (place : List String) (names : List String) (es : List (Value × Value)) :
    List Problem :=
  (names.filter fun n => !Value.hasKey (.str n) es).map fun n => ⟨place, .missing n⟩

/-- The order of keys in messages: by their texts. -/
def keyLe (a b : Value) : Bool :=
  match a.text, b.text with
  | .ok s, .ok t => textLe s t
  | _, _ => true

/-- The complaint about keys that are not among the names. -/
def unexpected (place : List String) (names : List String) (es : List (Value × Value)) :
    List Problem :=
  let extra := (es.map Prod.fst).filter fun k => !(nameOf k).any names.contains
  if extra.isEmpty then [] else problem place (.unexpected (extra.mergeSort keyLe))

/-- The problems of the entries of a mapping, each by the form that its name has. -/
def entries (form : String → List String → Value → List Problem) (place : List String)
    (es : List (Value × Value)) : List Problem :=
  es.flatMap fun e =>
    match nameOf e.1 with
    | some n => form n (inside place n) e.2
    | none => []

/-- Any value. -/
def anything (_ : List String) (_ : Value) : List Problem := []

/-! ### Defaults and tests -/

/-- The forms of the entries of defaults. -/
def defaultsForm : String → List String → Value → List Problem
  | "compare" => mode
  | "tolerance" => tolerance
  | _ => anything

/-- Defaults. -/
def defaults (place : List String) (v : Value) : List Problem :=
  match v with
  | .map false es => unexpected place ["compare", "tolerance"] es ++ entries defaultsForm place es
  | v => problem place (.notOfType v "object")

/-- The forms of the entries of a test. -/
def testForm : String → List String → Value → List Problem
  | "id" => nonEmptyText
  | "kind" => text
  | "op" => nonEmptyText
  | "description" => text
  | "compare" => mode
  | "tolerance" => tolerance
  | "xfail" => truthValue
  | "skip" => text
  | _ => anything

/-- The names of the entries of a test. -/
def testNames : List String :=
  ["id", "kind", "op", "input", "expected", "description", "compare", "tolerance", "xfail", "skip",
    "meta"]

/-- A test. -/
def test (place : List String) (v : Value) : List Problem :=
  match v with
  | .map false es =>
    required place ["id", "op", "input", "expected"] es ++ unexpected place testNames es ++
      entries testForm place es
  | v => problem place (.notOfType v "object")

/-! ### Groups and documents -/

/-- The names of the entries of a group. -/
def groupNames : List String := ["group", "description", "defaults", "groups", "tests"]

mutual

/-- A group. -/
def group (place : List String) : Value → List Problem
  | .map false es =>
    required place ["group"] es ++ unexpected place groupNames es ++ groupEntries place es
  | v => problem place (.notOfType v "object")

/-- The entries of a group. -/
def groupEntries (place : List String) : List (Value × Value) → List Problem
  | [] => []
  | (k, v) :: es =>
    (match nameOf k with
      | some "group" => nonEmptyText (inside place "group") v
      | some "description" => text (inside place "description") v
      | some "defaults" => defaults (inside place "defaults") v
      | some "groups" => groups (inside place "groups") v
      | some "tests" => listOf test (inside place "tests") v
      | _ => []) ++ groupEntries place es

/-- A list of groups. -/
def groups (place : List String) : Value → List Problem
  | .list xs => groupItems place 0 xs
  | v => problem place (.notOfType v "array")

/-- The groups of a list, numbered from a number on. -/
def groupItems (place : List String) : Nat → List Value → List Problem
  | _, [] => []
  | i, x :: xs => group (inside place (toString i)) x ++ groupItems place (i + 1) xs

end

/-- The forms of the entries of a document. -/
def documentForm : String → List String → Value → List Problem
  | "spec" => nonEmptyText
  | "version" => text
  | "schema" => text
  | "capabilities" => listOf text
  | "defaults" => defaults
  | "groups" => groups
  | _ => anything

/-- A document. -/
def document (v : Value) : List Problem :=
  match v with
  | .map false es => required [] ["spec", "version", "groups"] es ++ entries documentForm [] es
  | v => problem [] (.notOfType v "object")

/-! ### What is written out -/

/-- The tolerance that stands in a mapping, if one does. -/
def toleranceIn : Value → List Value
  | .map false es => (Value.field "tolerance" es).toList
  | _ => []

/-- The tolerances of the tests of a list. -/
def tolerancesOfTests : Option Value → List Value
  | some (.list xs) => xs.flatMap toleranceIn
  | _ => []

mutual

/-- The tolerances in a group: in its defaults, in its tests, and in the groups inside it. -/
def tolerancesOfGroup : Value → List Value
  | .map false es =>
    (Value.field "defaults" es).toList.flatMap toleranceIn ++
      tolerancesOfTests (Value.field "tests" es) ++ tolerancesOfEntries es
  | _ => []

/-- The tolerances in the groups that entries name. -/
def tolerancesOfEntries : List (Value × Value) → List Value
  | [] => []
  | (k, v) :: es =>
    if Value.sameKey k (.str "groups") then tolerancesOfGroups v else tolerancesOfEntries es

/-- The tolerances in the groups of a list. -/
def tolerancesOfGroups : Value → List Value
  | .list xs => tolerancesOfItems xs
  | _ => []

/-- The tolerances in groups, in order. -/
def tolerancesOfItems : List Value → List Value
  | [] => []
  | x :: xs => tolerancesOfGroup x ++ tolerancesOfItems xs

end

/-- The tolerances in a document. -/
def tolerances : Value → List Value
  | .map false es =>
    (Value.field "defaults" es).toList.flatMap toleranceIn ++ tolerancesOfEntries es
  | _ => []

/-- The validator of this library: it tells the problems of a document, and fails for what cannot be
written out. -/
def validator : Validator := fun _ v => do
  let _ ← Value.literals (tolerances v)
  Problem.tellAll (document v)

/-- A tolerance has no problem exactly when it is one. -/
theorem tolerance_eq_nil_iff {place : List String} {v : Value} :
    tolerance place v = [] ↔ isTolerance v = true := by
  unfold tolerance
  split <;> simp_all [problem]

/-- A list of items has no problem exactly when no item has one. -/
theorem items_eq_nil_iff {place : List String} {item : List String → Value → List Problem}
    {i : Nat} {xs : List Value} :
    items place item i xs = [] ↔
      ∀ j (h : j < xs.length), item (inside place (toString (i + j))) xs[j] = [] := by
  induction xs generalizing i with
  | nil => simp [items]
  | cons x xs ih =>
    simp only [items, List.append_eq_nil_iff, ih]
    constructor
    · rintro ⟨hx, hxs⟩ j hj
      cases j with
      | zero => simpa using hx
      | succ j =>
        have := hxs j (by simpa using hj)
        simpa [Nat.add_assoc, Nat.add_comm 1 j] using this
    · intro h
      have first := h 0 (by simp)
      simp only [Nat.add_zero, List.getElem_cons_zero] at first
      refine ⟨first, fun j hj => ?_⟩
      have := h (j + 1) (by simpa using hj)
      simpa [Nat.add_assoc, Nat.add_comm 1 j] using this

end Assay.Grammar
