import Assay.Yaml.Fault
import Assay.Yaml.Tag

/-!
# Nodes

A document is a tree of tagged nodes, with aliases replaced by what they name. A mapping may ask for
the entries of other mappings under its merge key; merging puts them before its own.
-/

namespace Assay.Yaml

/-- A node. -/
inductive Node where
  | scalar (tag : Tag) (text : String)
  | sequence (tag : Tag) (items : List Node)
  | mapping (tag : Tag) (entries : List (Node × Node))

namespace Node

instance : Inhabited Node := ⟨.scalar .null ""⟩

/-- The tag of a node. -/
def tag : Node → Tag
  | scalar t _ => t
  | sequence t _ => t
  | mapping t _ => t

/-- The node that stands where a text leaves one out. -/
def empty : Node := .scalar .null ""

/-- A key that only stands for the value of its mapping is text where it is a key like others. -/
def plainKey : Node → Node
  | scalar .value t => .scalar .str t
  | n => n

mutual

/-- The entries of a mapping with those that its merge keys ask for before its own. -/
def merged : List (Node × Node) → Except Fault (List (Node × Node) × List (Node × Node))
  | [] => .ok ([], [])
  | (k, v) :: es =>
    if k.tag = .merge then do
      let asked ← mergedFrom v
      let (others, own) ← merged es
      return (asked ++ others, own)
    else do
      let (others, own) ← merged es
      return (others, (k.plainKey, v) :: own)

/-- The entries that a merge key asks for: those of a mapping, or those of several mappings, the
last first. -/
def mergedFrom : Node → Except Fault (List (Node × Node))
  | .mapping _ es => do
    let (others, own) ← merged es
    return others ++ own
  | .sequence _ ns => mergedFromAll ns
  | .scalar _ _ => .error .broken

/-- The entries of several mappings, the last first. -/
def mergedFromAll : List Node → Except Fault (List (Node × Node))
  | [] => .ok []
  | .mapping _ es :: ns => do
    let (others, own) ← merged es
    return (← mergedFromAll ns) ++ (others ++ own)
  | _ :: _ => .error .broken

end

/-- The entries of a mapping after merging. -/
def entriesOf (es : List (Node × Node)) : Except Fault (List (Node × Node)) := do
  let (others, own) ← merged es
  return others ++ own

end Node

end Assay.Yaml
