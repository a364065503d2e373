import Assay.Number.Double
import Assay.Text.Blank
import Assay.Text.Digit

/-!
# Reading numbers from texts

Two grammars. A decimal numeral has digits with an optional point and exponent, or names a special
value. An integer numeral has digits of a base with an optional sign and base mark. In both, blanks
around the numeral are dropped, single underscores may stand between digits, and the digits of
every script count.
-/

namespace Assay.Numeral

open Assay.Text

/-- The text with the digits and blanks of other scripts in ASCII. ASCII itself is kept, so that
the information separators U+001C to U+001F are never blanks here; any other character of another
script becomes one that spoils every numeral. -/
def fold (cs : List Char) : List Char :=
  cs.map fun c =>
    if c.toNat < 128 then c
    else if isBlank c then ' '
    else match digit? c with
      | some d => Char.ofNat (48 + d)
      | none => '?'

/-- Drops underscores that stand between two digits; any other underscore spoils the numeral. -/
def dropUnderscores (isD : Char → Bool) : Bool → List Char → Option (List Char)
  | _, [] => some []
  | afterDigit, '_' :: rest =>
    if afterDigit && (match rest with | c :: _ => isD c | [] => false) then
      dropUnderscores isD false rest
    else none
  | _, c :: rest => (dropUnderscores isD (isD c) rest).map (c :: ·)

/-- The value of a run of ASCII digits. -/
def digitsValue (cs : List Char) : Nat := cs.foldl (fun n c => 10 * n + (c.toNat - 48)) 0

/-- A leading sign: whether the number is negative, and the rest. -/
def sign : List Char → Bool × List Char
  | '-' :: rest => (true, rest)
  | '+' :: rest => (false, rest)
  | cs => (false, cs)

/-- The exponent after the marker: a sign and at least one digit, and nothing else. -/
def exponent? (cs : List Char) : Option Int :=
  let (negative, ds) := sign cs
  if ds.isEmpty || !ds.all isDigit then none
  else
    let n := digitsValue ds
    some (if negative then -(n : Int) else n)

/-- An unsigned decimal: digits, a point, digits, an exponent. At least one digit is needed. -/
def unsigned? (negative : Bool) (cs : List Char) : Option Double :=
  let whole := cs.takeWhile isDigit
  let rest := cs.dropWhile isDigit
  let (part, rest) := match rest with
    | '.' :: r => (r.takeWhile isDigit, r.dropWhile isDigit)
    | r => ([], r)
  if whole.isEmpty && part.isEmpty then none
  else
    let value (e : Int) :=
      some (Double.ofDecimal negative (digitsValue (whole ++ part)) (e - part.length))
    match rest with
    | [] => value 0
    | 'e' :: r => (exponent? r).bind value
    | 'E' :: r => (exponent? r).bind value
    | _ => none

/-- The names of the special values, in lower case. -/
def special? (negative : Bool) (lower : List Char) : Option Double :=
  if lower = "inf".toList ∨ lower = "infinity".toList then some (.infinite negative)
  else if lower = "nan".toList then some (.nan 0)
  else none

/-- A double from the text of a decimal numeral. -/
def double? (cs : List Char) : Option Double := do
  let body ← dropUnderscores isDigit false (trimBy isPlainBlank (fold cs))
  let (negative, rest) := sign body
  match special? negative (rest.map Char.toLower) with
  | some x => some x
  | none => unsigned? negative rest

/-- The value of a digit in bases up to 36. -/
def baseDigit? (c : Char) : Option Nat :=
  if '0' ≤ c ∧ c ≤ '9' then some (c.toNat - 48)
  else if 'a' ≤ c ∧ c ≤ 'z' then some (c.toNat - 87)
  else if 'A' ≤ c ∧ c ≤ 'Z' then some (c.toNat - 55)
  else none

/-- A digit of a base. -/
def isBaseDigit (base : Nat) (c : Char) : Bool :=
  match baseDigit? c with
  | some d => d < base
  | none => false

/-- The value of digits of a base. -/
def baseValue (base : Nat) (cs : List Char) : Nat :=
  cs.foldl (fun n c => base * n + (baseDigit? c).getD 0) 0

/-- Drops the mark `0x`, `0o` or `0b` of a base, and one underscore after it. -/
def dropBaseMark (base : Nat) (cs : List Char) : List Char :=
  let dropScore : List Char → List Char
    | '_' :: r => r
    | r => r
  match cs with
  | '0' :: c :: rest =>
    let l := c.toLower
    if (base = 16 ∧ l = 'x') ∨ (base = 8 ∧ l = 'o') ∨ (base = 2 ∧ l = 'b') then dropScore rest else cs
  | _ => cs

/-- An integer from the text of a numeral in a base. -/
def int? (base : Nat) (cs : List Char) : Option Int := do
  let (negative, rest) := sign (trimBy isPlainBlank (fold cs))
  let digits ← dropUnderscores (isBaseDigit base) false (dropBaseMark base rest)
  if digits.isEmpty || !digits.all (isBaseDigit base) then none
  else
    let n := baseValue base digits
    some (if negative then -(n : Int) else n)

/-- Digits alone are a numeral of their value. -/
theorem dropUnderscores_of_not_mem {p : Char → Bool} {b : Bool} {cs : List Char}
    (h : '_' ∉ cs) : dropUnderscores p b cs = some cs := by
  induction cs generalizing b with
  | nil => rfl
  | cons c rest ih =>
    have hr : '_' ∉ rest := fun m => h (List.mem_cons_of_mem _ m)
    unfold dropUnderscores
    split
    · contradiction
    · simp_all
    · rename_i d r _ e
      cases e
      rw [ih hr]
      rfl

end Assay.Numeral
