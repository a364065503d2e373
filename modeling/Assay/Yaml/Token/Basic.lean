import Assay.Yaml.Fault

/-!
# Tokens

The parts of a text: marks of collections and entries, the properties of a node, and scalars. The
starts and ends of block collections, which the text shows by indentation alone, are tokens as well.
-/

namespace Assay.Yaml

/-- A directive: the major version that a text asks for, a handle for tags, or one that says
nothing. -/
inductive Directive where
  | version (major : Nat)
  | handle (name start : String)
  | other
deriving DecidableEq, Repr

/-- A token. -/
inductive Token where
  | directive (d : Directive)
  | documentStart
  | documentEnd
  | blockSequenceStart
  | blockMappingStart
  | blockEnd
  | flowSequenceStart
  | flowSequenceEnd
  | flowMappingStart
  | flowMappingEnd
  | blockEntry
  | flowEntry
  | key
  | value
  | alias (name : String)
  | anchor (name : String)
  | tag (handle : Option String) (suffix : String)
  | scalar (plain : Bool) (text : String)
deriving DecidableEq, Repr

/-- The tokens of a text: up to its end, or up to a fault that stands after them. -/
structure Tokens where
  list : List Token
  fault : Option Fault
deriving DecidableEq, Repr

end Assay.Yaml
