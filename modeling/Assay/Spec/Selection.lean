import Assay.Spec.Case
import Assay.Spec.Glob

/-!
# Selecting cases

Cases are selected by patterns on their labels. Without patterns all cases are kept; otherwise those
that match at least one pattern. The matcher is any.
-/

namespace Assay.Case

/-- The cases whose label matches one of the patterns, by a matcher. -/
def selectBy (isMatch : String → String → Bool) (patterns : List String) (cs : List Case) :
    List Case :=
  if patterns.isEmpty then cs
  else cs.filter fun c => patterns.any fun p => isMatch p c.label

/-- The cases whose label matches one of the glob patterns. -/
def select (patterns : List String) (cs : List Case) : List Case :=
  selectBy Glob.«matches» patterns cs

end Assay.Case
