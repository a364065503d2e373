import Assay.Comparison.Tolerance

/-!
# Tolerances as they are given

A tolerance is given as nothing, as a value, as a mapping, or as a structure that code has built. The
fields of a mapping and of a structure are given so in turn, under keys of any kind, and conversion
makes tolerances of them. A structure converts its fields whenever it is built, so the fields of a
mapping are converted twice.
-/

namespace Assay

namespace Tolerance

/-- What stands under a field that is there and was given nothing. -/
def absence : Tolerance := .plain .absent

/-- The tolerance, unless it is the mark of absence. -/
def present : Tolerance → Option Tolerance
  | .plain .absent => none
  | t => some t

/-- The tolerance, or the mark of absence where there is none. -/
def ofOption (t : Option Tolerance) : Tolerance := t.getD absence

/-- A tolerance converted once more: a structure stays as it is, and a plain bound is read as the value
that it is. -/
def again : Tolerance → Except Fault Tolerance
  | .structured abs rel fields => .ok (.structured abs rel fields)
  | .plain v => ofValue v

/-- Fields with their tolerances converted once more, in order. -/
def fieldsAgain : List (String × Tolerance) → Except Fault (List (String × Tolerance))
  | [] => .ok []
  | (name, t) :: fs => do
    let u ← t.again
    return (name, u) :: (← fieldsAgain fs)

/-- A structure built from two bounds and fields. -/
def build (abs rel : Option Bound) (fields : List (String × Tolerance)) : Except Fault Tolerance := do
  return .structured abs rel (ofFields (← fieldsAgain fields))

end Tolerance

/-- What a tolerance is made of: nothing, a value, a structure built from bounds and fields, or a
mapping that need not be a value, since tolerances may stand in it. -/
inductive Raw where
  | absent
  | value (v : Value)
  | made (abs rel : Option Bound) (fields : List (Value × Raw))
  | mapping (frozen : Bool) (entries : List (Value × Raw))

namespace Raw

/-- The name of the class of what is given. -/
def className : Raw → String
  | .absent => (Value.absent : Value).className
  | .value v => v.qualifiedName
  | .made _ _ _ => "Tolerance"
  | .mapping frozen _ => if frozen then "mappingproxy" else "dict"

/-- What stands under a text key. -/
def under (name : String) : List (Value × Raw) → Option Raw
  | [] => none
  | (k, r) :: es => if Value.sameKey k (.str name) then some r else under name es

/-- The entries of a mapping. -/
def entries : Raw → List (Value × Raw)
  | .value (.map _ es) => es.map fun e => (e.1, .value e.2)
  | .mapping _ es => es
  | _ => []

/-- The fields that are given: those of a structure, and those under the name of fields in a mapping. -/
def fields : Raw → List (Value × Raw)
  | .made _ _ fs => fs
  | r => ((under "fields" r.entries).map entries).getD []

/-- The bound under a text key, unless it is left out or null. -/
def bound? (name : String) (es : List (Value × Raw)) : Except Fault (Option Bound) :=
  match under name es with
  | none => .ok none
  | some (.value .null) => .ok none
  | some (.value v) => (Tolerance.toDouble v).map fun x => some (.float x)
  | some r => .error (.notNumber r.className)

mutual

/-- The tolerance that is made of what is given. -/
def convert : Raw → Except Fault Tolerance
  | .absent => .ok Tolerance.absence
  | .value v => Tolerance.ofValue v
  | .made abs rel fs => do
    return .structured abs rel (Tolerance.ofFields (← convertFields fs))
  | .mapping _ es => do
    let fs ← fieldsIn es
    let abs ← bound? "abs" es
    let rel ← bound? "rel" es
    Tolerance.build abs rel (Tolerance.ofFields fs)

/-- The fields that the entries of a mapping name. -/
def fieldsIn : List (Value × Raw) → Except Fault (List (String × Tolerance))
  | [] => .ok []
  | (k, r) :: es => if Value.sameKey k (.str "fields") then fieldsOf r else fieldsIn es

/-- The fields in a mapping; what counts as false has none. -/
def fieldsOf : Raw → Except Fault (List (String × Tolerance))
  | .absent => .ok []
  | .value v => Tolerance.fieldsOf v
  | .made _ _ _ => .error (.noItems "Tolerance")
  | .mapping _ fs => convertFields fs

/-- The tolerances of fields, each under the plain text of its key. -/
def convertFields : List (Value × Raw) → Except Fault (List (String × Tolerance))
  | [] => .ok []
  | (k, r) :: es => do
    let name ← k.text
    let t ← convert r
    return (name, t) :: (← convertFields es)

end

mutual

/-- A tolerance as it may be given. -/
def ofTolerance : Tolerance → Raw
  | .structured abs rel fs => .made abs rel (ofFields fs)
  | .plain .absent => .absent
  | .plain v => .value v

/-- Fields as they may be given. -/
def ofFields : List (String × Tolerance) → List (Value × Raw)
  | [] => []
  | (name, t) :: fs => (.str name, ofTolerance t) :: ofFields fs

end

mutual

/-- A value with each mapping given as one. -/
def ofValue : Value → Raw
  | .map frozen es => .mapping frozen (ofEntries es)
  | v => .value v

/-- Entries with each mapping given as one. -/
def ofEntries : List (Value × Value) → List (Value × Raw)
  | [] => []
  | (k, v) :: es => (k, ofValue v) :: ofEntries es

end

@[simp] theorem convert_value (v : Value) : convert (.value v) = Tolerance.ofValue v := rfl

end Raw

end Assay
