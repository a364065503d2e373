import Assay.Spec.Basic
import Assay.Spec.Grammar

/-!
# Specifications from documents

A document that belongs to the grammar is read as a specification. Each key that it leaves out is
absent, and an explicit null is kept. The causes for which a document is refused are listed here.
-/

namespace Assay

/-- Why a document gives no specification. -/
inductive DocumentFault where
  | notMapping
  | invalid (problems : List String)
  | fault (f : Fault)
deriving DecidableEq, Repr

/-- The error that a refusal is raised as. -/
def DocumentFault.failure : DocumentFault → Failure
  | .notMapping => .told "SpecError" "Spec document must contain a mapping at the top level"
  | .invalid problems =>
    .told "SpecError" ("Spec schema validation failed: " ++ "; ".intercalate problems)
  | .fault f => f.failure

namespace Document

/-- The text of a value that must have one. -/
def textOf (v : Value) : Except Fault String := v.text

/-- The value under a name, which the grammar has made sure of. -/
def need (name : String) (es : List (Value × Value)) : Value := (Value.field name es).getD .null

/-- The items under a name; an absent or empty list has none. -/
def itemsOf (name : String) (es : List (Value × Value)) : List Value :=
  match Value.field name es with
  | some (.list xs) => xs
  | _ => []

/-- The tolerance under its name, if there is one. -/
def toleranceOf (es : List (Value × Value)) : Except Fault (Option Tolerance) :=
  match Value.field "tolerance" es with
  | none => .ok none
  | some v => (Tolerance.ofValue v).map some

/-- Defaults from the entries of their mapping. -/
def readDefaults (es : List (Value × Value)) : Except Fault Defaults := do
  return ⟨Value.field "compare" es, ← toleranceOf es⟩

/-- The defaults under their name, if there are any. -/
def defaultsOf (es : List (Value × Value)) : Except Fault (Option Defaults) :=
  match Value.field "defaults" es with
  | some (.map _ ds) => (readDefaults ds).map some
  | _ => .ok none

/-- A test. -/
def readTest (v : Value) : Except Fault Test :=
  match v with
  | .map _ es => do
    let id ← textOf (need "id" es)
    let op ← textOf (need "op" es)
    return {
      id := id
      op := op
      input := need "input" es
      expected := need "expected" es
      kind := Value.field "kind" es
      description := Value.field "description" es
      compare := Value.field "compare" es
      tolerance := ← toleranceOf es
      xfail := .bool (((Value.field "xfail" es).map Value.truth).getD false)
      skip := Value.field "skip" es
      metadata := Value.field "meta" es }
  | _ => .ok ⟨"", "", .null, .null, none, none, none, none, .bool false, none, none⟩

/-- Tests, in order. -/
def readTests : List Value → Except Fault (List Test)
  | [] => .ok []
  | x :: xs => do
    let t ← readTest x
    return t :: (← readTests xs)

mutual

/-- A group. -/
def readGroup : Value → Except Fault Group
  | .map _ es => do
    let name ← textOf (need "group" es)
    let defaults ← defaultsOf es
    let groups ← groupsIn es
    let tests ← readTests (itemsOf "tests" es)
    return .mk name (Value.field "description" es) defaults groups tests
  | _ => .ok (.mk "" none none [] [])

/-- The groups that the entries of a group name. -/
def groupsIn : List (Value × Value) → Except Fault (List Group)
  | [] => .ok []
  | (k, v) :: es => if Value.sameKey k (.str "groups") then groupsOf v else groupsIn es

/-- The groups of a list. -/
def groupsOf : Value → Except Fault (List Group)
  | .list xs => readGroups xs
  | _ => .ok []

/-- Groups, in order. -/
def readGroups : List Value → Except Fault (List Group)
  | [] => .ok []
  | x :: xs => do
    let g ← readGroup x
    return g :: (← readGroups xs)

end

/-- Texts, in order. -/
def texts : List Value → Except Fault (List String)
  | [] => .ok []
  | x :: xs => do
    let t ← textOf x
    return t :: (← texts xs)

/-- A specification from the entries of a document that belongs to the grammar. -/
def readSpec (es : List (Value × Value)) : Except Fault Spec := do
  let name ← textOf (need "spec" es)
  let version ← textOf (need "version" es)
  let capabilities ← texts (itemsOf "capabilities" es)
  let defaults ← defaultsOf es
  let groups ← readGroups (itemsOf "groups" es)
  return ⟨name, version, Value.field "schema" es, capabilities, defaults.getD {}, groups⟩

/-- Makes sure that a validator finds no problem in a document, by the schema of specifications. -/
def validateBy (validator : Validator) (v : Value) : Except DocumentFault Unit :=
  match validator Schema.specification v with
  | .error f => .error (.fault f)
  | .ok [] => .ok ()
  | .ok told => .error (.invalid ((Told.sorted told).map Told.line))

/-- Makes sure that a document belongs to the grammar. -/
def validate (v : Value) : Except DocumentFault Unit := validateBy Grammar.validator v

/-- The specification of a document. -/
def toSpec (v : Value) : Except DocumentFault Spec :=
  match v with
  | .map _ es => do
    validate v
    (readSpec es).mapError .fault
  | _ => .error .notMapping

end Document

end Assay
