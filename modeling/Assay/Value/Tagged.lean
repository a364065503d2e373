import Assay.Number.Grid
import Assay.Value.Key
import Assay.Value.Literal

/-!
# Tagged values

A mapping of exactly one entry whose key is a tag stands for a value that a JSON text cannot say.
Decoding goes through lists and mappings and numbers the foreign objects that it makes, so that
each is equal to itself alone.
-/

namespace Assay

/-- Numbers the foreign objects that are made. -/
abbrev Fresh := StateM Nat

namespace Fresh

/-- The next identity. -/
def identity : Fresh Nat := do
  let n ← get
  set (n + 1)
  return n

end Fresh

namespace Element

/-- A plain value as item of an element type; floats are rounded to the grid of the type. -/
def item? (e : Element) (v : Value) : Option Item :=
  let number? : Option Double := match v with
    | .float x => some x
    | .int i => some (.ofInt i)
    | .bool b => some (.ofInt (if b then 1 else 0))
    | _ => none
  match e, v with
  | .boolean, v => some (.bool v.truth)
  | .text, .str s => some (.str s)
  | .signed _, .int i => some (.int i)
  | .signed _, .bool b => some (.int (if b then 1 else 0))
  | .unsigned _, .int i => some (.int i)
  | .unsigned _, .bool b => some (.int (if b then 1 else 0))
  | .half, _ => number?.map fun x => .float (x.onGrid .half)
  | .single, _ => number?.map fun x => .float (x.onGrid .single)
  | .double, _ => number?.map .float
  | .extended, _ => number?.map .float
  | _, _ => none

mutual

/-- The content of an array of an element type, with every leaf as plain value, if it has one. -/
def content (e : Element) : Value → Value
  | .list xs => .list (contents e xs)
  | v => match e.item? v with
    | some i => e.plain i
    | none => v

/-- The contents of a sequence. -/
def contents (e : Element) : List Value → List Value
  | [] => []
  | x :: xs => content e x :: contents e xs

end

end Element

namespace Value

/-- The pairs of a list of two-element lists. -/
def pairs? : List Value → Option (List (Value × Value))
  | [] => some []
  | .list [k, v] :: rest => (pairs? rest).map ((k, v) :: ·)
  | _ => none

/-- The bytes of a text whose characters are all below 256. -/
def latinBytes (s : String) : List UInt8 := s.toList.map fun c => UInt8.ofNat c.toNat

/-- The date of a text of the form year-month-day. -/
def dateOfText? (s : String) : Option Date :=
  match s.splitOn "-" with
  | [y, m, d] => do
    let date ← some (Date.mk (← y.toNat?) (← m.toNat?) (← d.toNat?))
    return date
  | _ => none

/-- What a tag makes of its content, whose own tags have been decoded already. -/
def untag (tag : String) (v : Value) : Fresh (Option Value) :=
  match tag, v with
  | "$tuple", .list xs => return some (.tuple xs)
  | "$map", .list xs => return (pairs? xs).map fun ps => .dict (ofPairs ps)
  | "$proxy", .list xs => return (pairs? xs).map fun ps => .map true (ofPairs ps)
  | "$bytes", .str s => return some (.bytes (latinBytes s))
  | "$date", .str s => return (dateOfText? s).map .date
  | "$obj", .list [.str c, .str t, .str r] => do
    return some (.foreign { className := c, text := t, shown := r, identity := ← Fresh.identity })
  | "$np", .list [.str name, x] =>
    return do
      let e ← Element.ofName? name
      return .scalar e (← e.item? x)
  | "$nd", .list [.str name, x] =>
    return (Element.ofName? name).map fun e => .array e (e.content x)
  | _, _ => return none

/-- The tag of a mapping, if it has exactly one entry under a text key. -/
def tag? : List (Value × Value) → Option String
  | [(.str tag, _)] => some tag
  | _ => none

mutual

/-- The value with all tags decoded. -/
def decoded : Value → Fresh Value
  | .list xs => return .list (← decodedAll xs)
  | .tuple xs => return .tuple (← decodedAll xs)
  | .map frozen es => do
    let es ← decodedEntries es
    match tag? es, es with
    | some tag, [(_, v)] => return (← untag tag v).getD (.map frozen es)
    | _, _ => return .map frozen es
  | v => return v

/-- A sequence with all tags decoded. -/
def decodedAll : List Value → Fresh (List Value)
  | [] => return []
  | x :: xs => do
    let y ← decoded x
    return y :: (← decodedAll xs)

/-- Entries with all tags in their values decoded. -/
def decodedEntries : List (Value × Value) → Fresh (List (Value × Value))
  | [] => return []
  | (k, v) :: es => do
    let w ← decoded v
    return (k, w) :: (← decodedEntries es)

end

/-- The value with all tags decoded, with identities from a number on. -/
def decodeFrom (first : Nat) (v : Value) : Value × Nat := (decoded v).run first

end Value

end Assay
