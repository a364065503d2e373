import Assay.Failure
import Assay.Value.Likeness

/-!
# Values

The values that documents hold and operations return: what a JSON text can say, tuples, mappings
with keys of any kind, byte strings, dates, objects of foreign classes, and the scalars and arrays
of a numeric library. A mapping keeps its entries in order of insertion. Texts are strings of characters
unless another kind of texts is given; what only compares and spells texts is defined for all of them.
-/

namespace Assay

/-- The element types of numeric scalars and arrays: truth values, integers, floats and texts. Complex
numbers, byte strings, moments and records of the numeric library are left out. -/
inductive Element where
  | boolean
  | signed (bits : Nat)
  | unsigned (bits : Nat)
  | half
  | single
  | double
  | extended
  | text
deriving DecidableEq, Repr

/-- The plain value inside a numeric scalar; one of extended precision is told by the double that it
equals. -/
inductive Item (τ : Type := String) where
  | bool (b : Bool)
  | int (i : Int)
  | float (x : Double)
  | str (s : τ)
deriving DecidableEq, Repr

/-- An object of a class that is known by name only: it has neither keys nor a length, and is no number. The
identity tells two objects apart; unless its class says otherwise, an object is equal to itself alone and counts
as true. -/
structure Foreign (τ : Type := String) where
  className : String
  text : String
  shown : String
  identity : Nat
  truth : Bool := true
  /-- The class of keys that it belongs to, by its own equality and hash. -/
  key : Value.KeyClass τ := .object identity
  /-- What its own equality answers when it is held against another object, which is known by its
  identity, or against a value of a class of keys. -/
  equals : Option (Value.KeyClass τ) → Except Failure Bool := fun peer =>
    match peer with
    | some (.object number) => .ok (number == identity)
    | _ => .ok false

/-- A value. One of them is the mark of absence, which stands for a value that is not there. -/
inductive Value (τ : Type := String) where
  | absent
  | null
  | bool (b : Bool)
  | int (i : Int)
  | float (x : Double)
  | str (s : τ)
  | list (items : List (Value τ))
  | tuple (items : List (Value τ))
  | map (frozen : Bool) (entries : List (Value τ × Value τ))
  | bytes (bs : List UInt8)
  | date (d : Date)
  | moment (m : Moment)
  | foreign (o : Foreign τ)
  | scalar (e : Element) (item : Item τ)
  | array (e : Element) (content : Value τ)

variable {τ : Type}

namespace Element

/-- The name of an element type. -/
def name : Element → String
  | .boolean => "bool"
  | .signed bits => "int" ++ toString bits
  | .unsigned bits => "uint" ++ toString bits
  | .half => "float16"
  | .single => "float32"
  | .double => "float64"
  | .extended => "longdouble"
  | .text => "str"

/-- The class of scalars of an element type. -/
def className : Element → String
  | .text => "str_"
  | e => e.name

/-- All element types with a name. -/
def all : List Element :=
  [.boolean, .signed 8, .signed 16, .signed 32, .signed 64, .unsigned 8, .unsigned 16,
    .unsigned 32, .unsigned 64, .half, .single, .double, .extended, .text]

/-- The element type of a name. -/
def ofName? (name : String) : Option Element := all.find? fun e => e.name == name

end Element

namespace Item

/-- The plain value of an item. -/
def toValue : Item τ → Value τ
  | .bool b => .bool b
  | .int i => .int i
  | .float x => .float x
  | .str s => .str s

end Item

/-- What a scalar gives for its plain value.  Extended precision has no plain counterpart, and such a
scalar gives itself. -/
def Element.plain (e : Element) (item : Item τ) : Value τ :=
  match e with
  | .extended => .scalar .extended item
  | _ => item.toValue

namespace Value

instance : Inhabited (Value τ) := ⟨.null⟩

/-- A mapping that can be changed. -/
abbrev dict (entries : List (Value τ × Value τ)) : Value τ := .map false entries

/-- The name of the class of a value. -/
def className : Value τ → String
  | .absent => "_Missing"
  | .null => "NoneType"
  | .bool _ => "bool"
  | .int _ => "int"
  | .float _ => "float"
  | .str _ => "str"
  | .list _ => "list"
  | .tuple _ => "tuple"
  | .map frozen _ => if frozen then "mappingproxy" else "dict"
  | .bytes _ => "bytes"
  | .date _ => "date"
  | .moment _ => "datetime"
  | .foreign o => o.className
  | .scalar e _ => e.className
  | .array _ _ => "ndarray"

/-- The name of the class of a value together with the library that it comes from. -/
def qualifiedName : Value τ → String
  | .date _ => "datetime.date"
  | .moment _ => "datetime.datetime"
  | .scalar e _ => "numpy." ++ e.className
  | .array _ _ => "numpy.ndarray"
  | v => v.className

/-- Double-precision scalars are floats as well, and text scalars are texts; this view forgets the
wrapping of those two. -/
def unwrapped : Value τ → Value τ
  | .scalar .double (.float x) => .float x
  | .scalar .text (.str s) => .str s
  | v => v

/-- The value, unless it is the mark of absence. -/
def present? : Value τ → Option (Value τ)
  | .absent => none
  | v => some v

/-- The text that a value is, if it is one. -/
def asText? (v : Value τ) : Option τ :=
  match v.unwrapped with
  | .str s => some s
  | _ => none

/-- Whether a value is null. -/
def isNull : Value τ → Bool
  | .null => true
  | _ => false

/-- Whether an item counts as true. -/
def itemTruth : Item → Bool
  | .bool b => b
  | .int i => i ≠ 0
  | .float (.finite _ m) => m.val ≠ 0
  | .float _ => true
  | .str s => s ≠ ""

/-- Whether a value counts as true: null, false, zeros, empty collections and the mark of absence do
not, and an object answers for itself. -/
def truth : Value → Bool
  | .absent => false
  | .null => false
  | .bool b => b
  | .int i => i ≠ 0
  | .float x => itemTruth (.float x)
  | .str s => s ≠ ""
  | .list xs => !xs.isEmpty
  | .tuple xs => !xs.isEmpty
  | .map _ es => !es.isEmpty
  | .bytes bs => !bs.isEmpty
  | .scalar _ i => itemTruth i
  | .foreign o => o.truth
  | _ => true

@[simp] theorem unwrapped_unwrapped (v : Value τ) : v.unwrapped.unwrapped = v.unwrapped := by
  cases v with
  | scalar e i => cases e <;> cases i <;> rfl
  | _ => rfl

end Value

end Assay
