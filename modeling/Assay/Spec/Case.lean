import Assay.Spec.Basic

/-!
# Cases

A case is a test at its place in the tree, with its comparison mode and tolerance resolved. The
cases of a tree come in post-order: those of the groups inside a group before its own.
-/

namespace Assay

/-- A test with its place in the tree and what is in effect for it. -/
structure Case where
  test : Test
  groupPath : List String
  compare : Value
  tolerance : Option Tolerance

namespace Case

/-- The names of the groups around a case, and its id. -/
def path (c : Case) : List String := c.groupPath ++ [c.test.id]

/-- The path as one text. -/
def identifier (c : Case) (separator : String) : String := separator.intercalate c.path

/-- The path with slashes, which patterns are matched with. -/
def label (c : Case) : String := c.identifier "/"

/-- Whether a tolerance is in effect. -/
def hasTolerance (c : Case) : Bool := Tolerance.isGiven c.tolerance

/-- The mode that stands where no other is set. -/
def defaultMode : Value := .str "strict"

/-- The first of two values that is present and not null. -/
def firstSet (a b : Option Value) : Option Value :=
  match a with
  | none => if b.any Value.isNull then none else b
  | some v => if v.isNull then (if b.any Value.isNull then none else b) else some v

/-- A value, or the default mode for one that counts as false. -/
def modeOrDefault : Option Value → Value
  | none => defaultMode
  | some v => if v.truth then v else defaultMode

/-- A test at a place of the tree: its own mode if it is set, else the one in effect, and its own
tolerance if it has the key, else the one in effect. -/
def resolve (groupPath : List String) (d : Defaults) (t : Test) : Case :=
  ⟨t, groupPath, modeOrDefault (firstSet t.compare d.compare), t.tolerance <|> d.tolerance⟩

end Case

namespace Group

mutual

/-- The cases of a group below a path, with inherited defaults. -/
def cases (path : List String) (inherited : Defaults) : Group → List Case
  | .mk name _ defaults gs ts =>
    let here := path ++ [name]
    let merged := inherited.overlay defaults
    casesOfAll here merged gs ++ ts.map (Case.resolve here merged)

/-- The cases of a list of groups below a path, with inherited defaults. -/
def casesOfAll (path : List String) (inherited : Defaults) : List Group → List Case
  | [] => []
  | g :: gs => cases path inherited g ++ casesOfAll path inherited gs

end

/-- The cases of a list of groups below a path; defaults may be inherited or not. -/
def flattened (path : List String) (inherited : Option Defaults) (gs : List Group) : List Case :=
  casesOfAll path (inherited.getD {}) gs

end Group

namespace Spec

/-- The cases of a specification. -/
def cases (s : Spec) : List Case := Group.flattened [] (some s.defaults) s.groups

end Spec

end Assay
