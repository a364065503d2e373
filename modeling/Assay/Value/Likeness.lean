import Assay.Number.Double
import Assay.Value.Calendar

/-!
# Likeness of keys

Keys that are no sequences fall into classes, and two of them are the same key exactly if they are in
one class: numbers by their value, with booleans as 0 and 1, texts, bytes, dates and moments by what
they say, and objects by what their own equality and hash make of them.
-/

namespace Assay.Value

/-- A number as key: an integer, or a double that is no integer. -/
inductive NumericKey where
  | whole (i : Int)
  | part (x : Double)
deriving DecidableEq, Repr

/-- What decides whether two keys other than tuples are the same. -/
inductive KeyClass (τ : Type := String) where
  | number (n : NumericKey)
  | text (s : τ)
  | null
  | absent
  | bytes (bs : List UInt8)
  | date (d : Date)
  | moment (zoned : Bool) (instant : Int)
  | object (number : Nat)
deriving DecidableEq, Repr

/-- The numeric key of a double: its integer value if it has one. -/
def numericKeyOfDouble (x : Double) : NumericKey :=
  match x.toInt? with
  | some i => .whole i
  | none => .part x

end Assay.Value
