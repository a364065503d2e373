import Assay.Number.Arithmetic
import Assay.Number.Numeral
import Assay.Value.Literal
import Assay.Yaml.Fault
import Assay.Yaml.Tag

/-!
# Numbers in scalars

Underscores are dropped and a sign is taken off. An integer then shows its base at its start, or has
parts in base sixty between colons; a decimal number may have such parts too.
-/

namespace Assay.Yaml.Number

/-- The characters without underscores. -/
def withoutScores (s : String) : List Char := s.toList.filter (· ≠ '_')

/-- An integer of a base. -/
def intOf (base : Nat) (cs : List Char) : Except Fault Int :=
  match Numeral.int? base cs with
  | none => .error (.notInteger base (String.ofList cs))
  | some i =>
    let digits := (cs.filter fun c => (Text.digit? c).isSome).length
    if base = 10 ∧ digitLimit < digits then .error (.longInteger digits) else .ok i

/-- Integers of base ten, in order. -/
def intsOf : List (List Char) → Except Fault (List Int)
  | [] => .ok []
  | p :: ps => do
    let i ← intOf 10 p
    return i :: (← intsOf ps)

/-- An integer without its sign. -/
def magnitude (cs : List Char) : Except Fault Int :=
  match cs with
  | [] => .error .emptyNumber
  | ['0'] => .ok 0
  | '0' :: 'b' :: rest => intOf 2 rest
  | '0' :: 'x' :: rest => intOf 16 rest
  | '0' :: _ => intOf 8 cs
  | _ =>
    if cs.contains ':' then do
      return (← intsOf (Tag.splitAt ':' cs)).foldl (fun n d => 60 * n + d) 0
    else intOf 10 cs

/-- The integer of a scalar. -/
def int (s : String) : Except Fault Int :=
  match withoutScores s with
  | [] => .error .emptyNumber
  | '-' :: rest => do return -(← magnitude rest)
  | '+' :: rest => magnitude rest
  | cs => magnitude cs

/-- A decimal number. -/
def decimalOf (cs : List Char) : Except Fault Double :=
  match Numeral.double? cs with
  | none => .error (.notDecimal (String.ofList cs))
  | some x => .ok x

/-- Decimal numbers, in order. -/
def decimalsOf : List (List Char) → Except Fault (List Double)
  | [] => .ok []
  | p :: ps => do
    let x ← decimalOf p
    return x :: (← decimalsOf ps)

/-- The sum of digits of base sixty from the last to the first, rounded at each step. -/
def sixtySum : Nat → List Double → Double → Double
  | _, [], sum => sum
  | base, d :: ds, sum => sixtySum (60 * base) ds (sum.add (d.mul (.ofInt base)))

/-- A decimal number without its sign. -/
def decimalMagnitude (cs : List Char) : Except Fault Double :=
  if cs = ".inf".toList then .ok (.infinite false)
  else if cs = ".nan".toList then .ok (.nan 0)
  else if cs.contains ':' then do
    return sixtySum 1 (← decimalsOf (Tag.splitAt ':' cs)).reverse .zero
  else decimalOf cs

/-- The decimal number of a scalar. -/
def decimal (s : String) : Except Fault Double :=
  match (withoutScores s).map Char.toLower with
  | [] => .error .emptyNumber
  | '-' :: rest => do return (← decimalMagnitude rest).neg
  | '+' :: rest => decimalMagnitude rest
  | cs => decimalMagnitude cs

end Assay.Yaml.Number
