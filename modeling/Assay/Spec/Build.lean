import Assay.Comparison.Raw
import Assay.Spec.Case

/-!
# What is built around a tolerance

Defaults, tests and cases convert the tolerance that they are built with, whether or not it has been
converted before. On its way from a document to a case a tolerance is converted again at each level of
the tree and once more where the case is made.
-/

namespace Assay

/-- Defaults built with a mode and a tolerance. -/
def Defaults.build (compare : Option Value) (t : Tolerance) : Except Fault Defaults := do
  return ⟨compare, (← t.again).present⟩

/-- Defaults built with the keys of an inner level laid over those of an outer one. -/
def Defaults.buildOverlay (outer : Defaults) (inner : Option Defaults) : Except Fault Defaults :=
  match inner with
  | none => .ok outer
  | some d =>
    build (d.compare <|> outer.compare) (Tolerance.ofOption (d.tolerance <|> outer.tolerance))

/-- A test built like another one, with a tolerance. -/
def Test.build (t : Test) (u : Tolerance) : Except Fault Test := do
  return { t with tolerance := (← u.again).present }

/-- A case built like another one, with a tolerance in effect. -/
def Case.build (c : Case) (u : Tolerance) : Except Fault Case := do
  return { c with tolerance := (← u.again).present }

/-- The case of a test at a place of the tree, built with the tolerance in effect there. -/
def Case.buildResolved (groupPath : List String) (d : Defaults) (t : Test) : Except Fault Case :=
  build (resolve groupPath d t) (Tolerance.ofOption (resolve groupPath d t).tolerance)

/-- The cases of tests at a place of the tree, built in order. -/
def Case.buildResolvedAll (groupPath : List String) (d : Defaults) :
    List Test → Except Fault (List Case)
  | [] => .ok []
  | t :: ts => do
    let c ← buildResolved groupPath d t
    return c :: (← buildResolvedAll groupPath d ts)

namespace Group

mutual

/-- The cases of a group below a path, with all that is laid over the inherited defaults built anew. -/
def buildCases (path : List String) (inherited : Defaults) : Group → Except Fault (List Case)
  | .mk name _ defaults gs ts => do
    let merged ← inherited.buildOverlay defaults
    let inner ← buildCasesOfAll (path ++ [name]) merged gs
    return inner ++ (← Case.buildResolvedAll (path ++ [name]) merged ts)

/-- The cases of a list of groups below a path, built in order. -/
def buildCasesOfAll (path : List String) (inherited : Defaults) :
    List Group → Except Fault (List Case)
  | [] => .ok []
  | g :: gs => do
    let first ← buildCases path inherited g
    return first ++ (← buildCasesOfAll path inherited gs)

end

end Group

end Assay
