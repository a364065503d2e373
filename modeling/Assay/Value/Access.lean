import Assay.Number.Arithmetic
import Assay.Value.Key
import Assay.Value.Literal

/-!
# Access to parts of values

Looking up a name in a value, adding and dividing values, with the failure that each misuse raises.
-/

namespace Assay

namespace Failure

/-- A key that is missing. -/
def missingKey (name : String) : Failure := .told "KeyError" (Text.quote name)

/-- An operator that does not apply to two values. -/
def operands (operator : String) (a b : Value) : Failure :=
  type s!"unsupported operand type(s) for {operator}: '{a.qualifiedName}' and '{b.qualifiedName}'"

end Failure

namespace Value

/-- The value under a text key; only mappings have such keys. -/
def part (v : Value) (name : String) : Except Failure Value :=
  match v with
  | .map _ es =>
    match field name es with
    | some w => .ok w
    | none => .error (.missingKey name)
  | .list _ => .error (.type "list indices must be integers or slices, not str")
  | .tuple _ => .error (.type "tuple indices must be integers or slices, not str")
  | .bytes _ => .error (.type "byte indices must be integers or slices, not str")
  | .str _ => .error (.type "string indices must be integers, not 'str'")
  | v => .error (.type s!"'{v.qualifiedName}' object is not subscriptable")

/-- A number: an integer or a double. -/
inductive Number where
  | int (i : Int)
  | float (x : Double)

/-- The number that a value is; booleans are 0 and 1. -/
def number? (v : Value) : Option Number :=
  match v.unwrapped with
  | .bool b => some (.int (if b then 1 else 0))
  | .int i => some (.int i)
  | .float x => some (.float x)
  | _ => none

/-- The double nearest to an integer, which must be in range. -/
def doubleOf (i : Int) : Except Failure Double :=
  match Double.ofInt i with
  | .infinite _ => .error Fault.tooLarge.failure
  | x => .ok x

/-- A number as double. -/
def Number.toDouble : Number → Except Failure Double
  | .int i => doubleOf i
  | .float x => .ok x

/-- The sum of two numbers, or two texts or sequences of one kind joined. -/
def plus (a b : Value) : Except Failure Value :=
  match number? a, number? b with
  | some (.int i), some (.int j) => .ok (.int (i + j))
  | some x, some y => do return .float ((← x.toDouble).add (← y.toDouble))
  | _, _ =>
    match a, b with
    | .str s, .str t => .ok (.str (s ++ t))
    | .list xs, .list ys => .ok (.list (xs ++ ys))
    | .tuple xs, .tuple ys => .ok (.tuple (xs ++ ys))
    | .bytes xs, .bytes ys => .ok (.bytes (xs ++ ys))
    | .str _, b => .error (.type s!"can only concatenate str (not \"{b.qualifiedName}\") to str")
    | .list _, b => .error (.type s!"can only concatenate list (not \"{b.qualifiedName}\") to list")
    | .tuple _, b =>
      .error (.type s!"can only concatenate tuple (not \"{b.qualifiedName}\") to tuple")
    | .bytes _, b => .error (.type s!"can't concat {b.qualifiedName} to bytes")
    | a, b => .error (.operands "+" a b)

/-- Whether a value is a number equal to zero. -/
def isZero (v : Value) : Bool :=
  match number? v with
  | some (.int i) => i = 0
  | some (.float x) => x.isZero
  | none => false

/-- The quotient of two numbers for a divisor that is not zero; that of two integers is rounded once
from the exact ratio. -/
def dividedBy (a b : Value) : Except Failure Value :=
  match number? a, number? b with
  | some (.int i), some (.int j) =>
    match Double.ofRatio i j with
    | .infinite _ => .error (.told "OverflowError" "integer division result too large for a float")
    | x => .ok (.float x)
  | some x, some y => do return .float ((← x.toDouble).div (← y.toDouble))
  | _, _ => .error (.operands "/" a b)

end Value

end Assay
