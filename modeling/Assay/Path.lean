/-!
# File paths

A path is written in its plain form: single slashes, no parts that stand for the same directory, and
a single dot for the empty path. Its last part has a stem and a suffix.
-/

namespace Assay.Path

/-- The parts of a path that name something. -/
def parts (path : String) : List String :=
  ((path.toList.splitOn '/').map String.ofList).filter fun p => p ≠ "" && p ≠ "."

/-- The slashes at the start: one for a rooted path, two for a path that starts with exactly two. -/
def root (path : String) : String :=
  let slashes := (path.toList.takeWhile (· = '/')).length
  if slashes = 0 then "" else if slashes = 2 then "//" else "/"

/-- The plain form of a path. -/
def plain (path : String) : String :=
  let body := "/".intercalate (parts path)
  if root path = "" && body = "" then "." else root path ++ body

/-- The last part of a path. -/
def name (path : String) : String := (parts path).getLast?.getD ""

/-- The characters of a name before and after its last point, if the point splits it: neither the
first nor the last character is one. -/
def splitName (name : String) : List Char × List Char :=
  let cs := name.toList
  let after := (cs.reverse.takeWhile (· ≠ '.')).reverse
  let before := cs.take (cs.length - after.length - 1)
  if after.length < cs.length ∧ before ≠ [] ∧ after ≠ [] then (before, '.' :: after) else (cs, [])

/-- The suffix of the last part, with its point. -/
def suffix (path : String) : String := String.ofList (splitName (name path)).2

/-- The last part without its suffix. -/
def stem (path : String) : String := String.ofList (splitName (name path)).1

/-- A path that can only be that of a folder: one without parts, or one that ends with a step to the
parent. -/
def isFolder (path : String) : Bool := name path = "" || name path = ".."

/-- The homes of users: what stands for a first part such as `~` or `~name`, if it is known. -/
abbrev Home := String → Option String

/-- What is said of a home that is not known. -/
def homelessText : String := "Could not determine home directory."

/-- A path with the home of a user in place of a first part that starts with a tilde; none if the home is
not known. -/
def expand (home : Home) (path : String) : Option String :=
  match parts path with
  | [] => some path
  | first :: rest =>
    if root path = "" ∧ first.startsWith "~" then
      (home first).map fun place => plain ("/".intercalate (place :: rest))
    else some path

end Assay.Path
