/-!
# Failures

An error that is raised has a class and a text. Asking for the text may itself raise an error, and
then nothing can be told of the first one but its class.
-/

namespace Assay

/-- An error that is raised. -/
inductive Failure where
  /-- An error with a text. -/
  | told (className text : String)
  /-- An error whose text cannot be asked for: that raises another error. -/
  | untold (className : String) (why : Failure)
deriving DecidableEq, Repr

namespace Failure

/-- The name of the class of an error. -/
def className : Failure → String
  | .told c _ => c
  | .untold c _ => c

/-- The text of an error. -/
def text : Failure → Except Failure String
  | .told _ t => .ok t
  | .untold _ why => .error why

/-- The text that describes an error: its own, or its class where that is empty. -/
def describe : Failure → Except Failure String
  | .told c t => .ok (if t = "" then c else t)
  | .untold _ why => .error why

/-- A value of a class that does not fit. -/
def type (text : String) : Failure := .told "TypeError" text

end Failure

end Assay
