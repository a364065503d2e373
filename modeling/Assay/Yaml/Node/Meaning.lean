import Assay.Text.Base64
import Assay.Value.Key
import Assay.Value.Literal
import Assay.Yaml.Node.Basic
import Assay.Yaml.Scalar.Number

/-!
# Values of nodes

The value that a node stands for. When several nodes stand for none, the fault that counts is the one
nearest to the root, and the first of those: collections are filled after all that stands beside them.
A collection is no key.
-/

namespace Assay.Yaml

/-- A value, or a fault with its distance from the root. -/
abbrev Meaning (α : Type) := Except (Nat × Fault) α

namespace Meaning

/-- A fault at a distance. -/
def atDistance {α : Type} (distance : Nat) (e : Except Fault α) : Meaning α :=
  e.mapError fun f => (distance, f)

/-- Two meanings together; of two faults the nearer counts, and the first if both are as near. -/
def both {α β : Type} : Meaning α → Meaning β → Meaning (α × β)
  | .ok a, .ok b => .ok (a, b)
  | .ok _, .error g => .error g
  | .error f, .ok _ => .error f
  | .error f, .error g => .error (if g.1 < f.1 then g else f)

end Meaning

namespace Node

/-- The text of a scalar; a mapping with a key that stands for its value has the text of that. -/
def scalarText? : Node → Option String
  | scalar _ t => some t
  | sequence _ _ => none
  | mapping _ es => textOf? es
where
  /-- The text under the first key that stands for the value of its mapping. -/
  textOf? : List (Node × Node) → Option String
    | [] => none
    | (k, v) :: es => if k.tag = .value then scalarText? v else textOf? es

/-- The truth value of a word. -/
def truthOf (s : String) : Except Fault Bool :=
  let w := s.map Char.toLower
  if w = "yes" ∨ w = "true" ∨ w = "on" then .ok true
  else if w = "no" ∨ w = "false" ∨ w = "off" then .ok false
  else .error (.notTruth w)

/-- The value of a scalar. -/
def scalarValue (tag : Tag) (s : String) : Except Fault Value :=
  match tag with
  | .null => .ok .null
  | .bool => (truthOf s).map .bool
  | .int => (Number.int s).map .int
  | .float => (Number.decimal s).map .float
  | .str => .ok (.str s)
  | .timestamp =>
    match MomentParts.ofChars? s.toList with
    | some p => p.toValue
    | none => .error .notDate
  | .binary =>
    if s.toList.all fun c => c.toNat < 128 then
      match Text.Base64.decode s.toList with
      | some bs => .ok (.bytes bs)
      | none => .error .broken
    else .error .broken
  | _ => .error .broken

/-- A set of values, which is known by its text alone: sets of one text are one. -/
def setOf (members : List Value) : Except Fault Value :=
  match Value.literals members with
  | .error _ => .error .broken
  | .ok ts =>
    let text := if ts = [] then "set()" else "\x7b" ++ ", ".intercalate ts ++ "\x7d"
    let number := text.toList.foldl (fun n c => 0x110000 * n + c.toNat) 1
    .ok (.foreign { className := "set", text := text, shown := text, identity := number })

/-- The kinds of collections. -/
inductive Kind where
  | items
  | entries
  | members
  | pairs
deriving DecidableEq, Repr

/-- The kind of collection of a tag, if it is one. -/
def kind? : Tag → Option Kind
  | .seq => some .items
  | .map => some .entries
  | .set => some .members
  | .orderedMap => some .pairs
  | .pairs => some .pairs
  | _ => none

/-- The value of a node at a distance from the root, for a supply of steps. -/
def meaning : Nat → Nat → Node → Meaning Value
  | 0, d, _ => .error (d, .broken)
  | fuel + 1, d, n =>
    let items (ns : List Node) : Meaning (List Value) :=
      ns.foldr (fun m vs => ((meaning fuel (d + 1) m).both vs).map fun p => p.1 :: p.2) (.ok [])
    let entry (e : Node × Node) : Meaning (Value × Value) :=
      let key := if (kind? e.1.tag).isSome then .error (d + 1, .broken) else meaning fuel (d + 1) e.1
      key.both (meaning fuel (d + 1) e.2)
    let entries (es : List (Node × Node)) : Meaning (List (Value × Value)) := do
      let es ← Meaning.atDistance (d + 1) (entriesOf es)
      es.foldr (fun e vs => ((entry e).both vs).map fun p => p.1 :: p.2) (.ok [])
    let pair (m : Node) : Meaning Value :=
      match m with
      | mapping _ [(k, v)] =>
        ((meaning fuel (d + 1) k).both (meaning fuel (d + 1) v)).map fun p => .tuple [p.1, p.2]
      | _ => .error (d + 1, .broken)
    match kind? n.tag, n with
    | some .items, sequence _ ns => (items ns).map .list
    | some .entries, mapping _ es => (entries es).map fun es => .dict (Value.ofPairs es)
    | some .members, mapping _ es => do
      let es ← entries es
      Meaning.atDistance (d + 1) (setOf ((Value.ofPairs es).map Prod.fst))
    | some .pairs, sequence _ ns =>
      (ns.foldr (fun m vs => ((pair m).both vs).map fun p => p.1 :: p.2) (.ok [])).map .list
    | some _, _ => .error (d + 1, .broken)
    | none, n =>
      match n.scalarText? with
      | some s => Meaning.atDistance d (scalarValue n.tag s)
      | none => .error (d, .broken)

mutual

/-- The number of nodes on the longest way down. -/
def height : Node → Nat
  | scalar _ _ => 1
  | sequence _ ns => heightOfAll ns + 1
  | mapping _ es => heightOfEntries es + 1

/-- The greatest height of a list of nodes. -/
def heightOfAll : List Node → Nat
  | [] => 0
  | n :: ns => max (height n) (heightOfAll ns)

/-- The greatest height of keys and values. -/
def heightOfEntries : List (Node × Node) → Nat
  | [] => 0
  | (k, v) :: es => max (max (height k) (height v)) (heightOfEntries es)

end

/-- The value that a node stands for. -/
def toValue (n : Node) : Except Fault Value := (meaning n.height 0 n).mapError Prod.snd

end Node

end Assay.Yaml
