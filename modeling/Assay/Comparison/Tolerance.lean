import Assay.Comparison.Quantity
import Assay.Number.Numeral
import Assay.Value.Key
import Assay.Value.Dump

/-!
# Tolerances

A tolerance is one bound for all numbers, or a structure of an absolute bound, a relative bound and
tolerances for fields. A structure stands for itself at every field that it does not name.
-/

namespace Assay

/-- A tolerance. A plain bound may be any value, null and the mark of absence included; only a number
bounds anything. -/
inductive Tolerance where
  | plain (bound : Value)
  | structured (abs rel : Option Bound) (fields : List (String × Tolerance))

namespace Tolerance

/-- The tolerance under a field name; a structure stands for itself where it has no such field, and
a plain bound everywhere. -/
def forField (name : String) (t : Tolerance) : Tolerance :=
  match t with
  | .plain _ => t
  | .structured _ _ fields => ((fields.find? fun f => f.1 == name).map Prod.snd).getD t

/-- Whether a tolerance is given: null is none. -/
def isGiven : Option Tolerance → Bool
  | none => false
  | some (.plain .null) => false
  | some _ => true

/-- Puts a tolerance under a field name: a present name keeps its place, a new one goes last. -/
def insertField (name : String) (t : Tolerance) :
    List (String × Tolerance) → List (String × Tolerance)
  | [] => [(name, t)]
  | (n, u) :: fs => if n = name then (n, t) :: fs else (n, u) :: insertField name t fs

/-- The fields that insertion in order makes of a list. -/
def ofFields (fs : List (String × Tolerance)) : List (String × Tolerance) :=
  fs.foldl (fun acc f => insertField f.1 f.2 acc) []

/-- The double of an integer, which must be in the range of doubles. -/
def ofInteger (i : Int) : Except Fault Double := (Quantity.doubleOfInt? i).elim (.error .tooLarge) .ok

/-- The double of a numeral in the characters of a value. -/
def ofNumeral (v : Value) (cs : List Char) : Except Fault Double :=
  match Numeral.double? cs with
  | some x => .ok x
  | none => do .error (.notNumeral (← v.literal))

/-- A value as double: a number, a text or byte string that is a numeral, or an array without axes that
holds one of these. -/
def toDouble (v : Value) : Except Fault Double :=
  match v with
  | .bool b => ofInteger (if b then 1 else 0)
  | .int i => ofInteger i
  | .float x => .ok x
  | .str s => ofNumeral v s.toList
  | .bytes bs => ofNumeral v (bs.map fun b => Char.ofNat b.toNat)
  | .scalar _ (.bool b) => ofInteger (if b then 1 else 0)
  | .scalar _ (.int i) => ofInteger i
  | .scalar _ (.float x) => .ok x
  | .scalar _ (.str s) => ofNumeral v s.toList
  | .array e (.list xs) => .error (.notNumber (Value.array e (.list xs)).qualifiedName)
  | .array _ content => toDouble content
  | _ => .error (.notNumber v.qualifiedName)

/-- The value under a text key, unless it is absent or null. -/
def bound? (name : String) (es : List (Value × Value)) : Except Fault (Option Bound) :=
  match Value.field name es with
  | none => .ok none
  | some .null => .ok none
  | some v => (toDouble v).map fun x => some (.float x)

mutual

/-- Reads a tolerance from a value: a number is a plain bound, a mapping a structure, and nothing stays
nothing. -/
def ofValue : Value → Except Fault Tolerance
  | .absent => .ok (.plain .absent)
  | .null => .ok (.plain .null)
  | .int i => do return .plain (.float (← toDouble (.int i)))
  | .float x => .ok (.plain (.float x))
  | .scalar .double (.float x) => .ok (.plain (.float x))
  | .map _ es => do
    let fields ← fieldsIn es
    let abs ← bound? "abs" es
    let rel ← bound? "rel" es
    return .structured abs rel (ofFields fields)
  | v => do .error (.badTolerance (← v.literal))

/-- Reads the fields that the entries of a tolerance name. -/
def fieldsIn : List (Value × Value) → Except Fault (List (String × Tolerance))
  | [] => .ok []
  | (k, v) :: es => if Value.sameKey k (.str "fields") then fieldsOf v else fieldsIn es

/-- Reads fields from a mapping; any other value that counts as false has none. -/
def fieldsOf : Value → Except Fault (List (String × Tolerance))
  | .map _ fs => readFields fs
  | v => if v.truth then .error (.noItems v.qualifiedName) else .ok []

/-- Reads the tolerances of fields, each under the plain text of its key. -/
def readFields : List (Value × Value) → Except Fault (List (String × Tolerance))
  | [] => .ok []
  | (k, v) :: es => do
    let name ← k.text
    let t ← ofValue v
    return (name, t) :: (← readFields es)

end

mutual

/-- The dump text of a tolerance. -/
def dump : Tolerance → String
  | .plain v => Value.dump v
  | .structured abs rel fields =>
    "Tolerance(abs=" ++ boundText abs ++ ", rel=" ++ boundText rel ++ ", fields=\x7b" ++
      ", ".intercalate (dumpFields fields) ++ "\x7d)"

/-- The dump texts of fields. -/
def dumpFields : List (String × Tolerance) → List String
  | [] => []
  | (name, t) :: fs => (Value.dumpString name ++ ": " ++ dump t) :: dumpFields fs

/-- The text of a bound that may be absent. -/
def boundText : Option Bound → String
  | none => "null"
  | some (.int i) => toString i
  | some (.float x) => Layout.plain.text x

end

/-- The dump text of a tolerance that may be absent. -/
def dumpOption : Option Tolerance → String
  | none => "MISSING"
  | some t => dump t

/-- The last of a list of fields is inserted after all others. -/
theorem ofFields_append_singleton (fs : List (String × Tolerance)) (f : String × Tolerance) :
    ofFields (fs ++ [f]) = insertField f.1 f.2 (ofFields fs) := by
  rw [ofFields, List.foldl_append]
  rfl

end Tolerance

end Assay
