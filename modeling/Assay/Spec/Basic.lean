import Assay.Comparison.Tolerance

/-!
# Specifications

A specification is a named tree of groups, each with tests. A test fixes an operation, its input
and the expected result. Keys that a document may leave out are options, so that an absent key and
a null are told apart.
-/

namespace Assay

/-- What a level of the tree says about the tests below it. -/
structure Defaults where
  compare : Option Value := none
  tolerance : Option Tolerance := none

/-- A test: an operation, its input and the expected result. -/
structure Test where
  id : String
  op : String
  input : Value
  expected : Value
  kind : Option Value := none
  description : Option Value := none
  compare : Option Value := none
  tolerance : Option Tolerance := none
  xfail : Value := .bool false
  skip : Option Value := none
  metadata : Option Value := none

/-- A group of tests and of further groups. -/
inductive Group where
  | mk (name : String) (description : Option Value) (defaults : Option Defaults)
      (groups : List Group) (tests : List Test)

/-- A specification. -/
structure Spec where
  name : String
  version : String
  schema : Option Value := none
  capabilities : List String := []
  defaults : Defaults := {}
  groups : List Group

instance : Inhabited Group := ⟨.mk "" none none [] []⟩

namespace Group

/-- The name of a group. -/
def name : Group → String
  | .mk n _ _ _ _ => n

/-- What a group is about. -/
def description : Group → Option Value
  | .mk _ d _ _ _ => d

/-- The defaults of a group, if it has any. -/
def defaults : Group → Option Defaults
  | .mk _ _ d _ _ => d

/-- The groups inside a group. -/
def groups : Group → List Group
  | .mk _ _ _ gs _ => gs

/-- The tests of a group itself. -/
def tests : Group → List Test
  | .mk _ _ _ _ ts => ts

end Group

namespace Defaults

/-- The defaults with the keys of an inner level laid over them, key by key. -/
def overlay (outer : Defaults) (inner : Option Defaults) : Defaults :=
  match inner with
  | none => outer
  | some d => ⟨d.compare <|> outer.compare, d.tolerance <|> outer.tolerance⟩

end Defaults

end Assay
