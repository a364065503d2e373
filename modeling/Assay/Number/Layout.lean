import Assay.Number.Shortest

/-!
# How doubles are written

A layout says which decimal exponents are written positionally and how the rest looks. One layout
writes the plain texts of doubles, one the texts of single precision and one those of half
precision; JSON texts differ in the names of the special values only.
-/

namespace Assay

/-- The decisions of a number format. A value whose leading digit has a decimal exponent from
`least` up to but not including `first` is positional. -/
structure Layout where
  grid : Grid
  least : Int
  first : Int
  notNumber : String
  infinity : String
deriving Repr

namespace Layout

/-- Doubles: positional from 10⁻⁴ to below 10¹⁶. -/
def plain : Layout := ⟨.double, -4, 16, "nan", "inf"⟩

/-- Doubles in JSON texts. -/
def json : Layout := { plain with notNumber := "NaN", infinity := "Infinity" }

/-- Single precision: positional from 10⁻⁴ to below 10⁶. -/
def single : Layout := ⟨.single, -4, 6, "nan", "inf"⟩

/-- Half precision: positional from 10⁻⁴ to below 10³. -/
def half : Layout := ⟨.half, -4, 3, "nan", "inf"⟩

/-- Extended precision: positional like doubles. -/
def extended : Layout := ⟨.extended, -4, 16, "nan", "inf"⟩

/-- An exponent with its sign and at least two digits. -/
def exponentText (e : Int) : List Char :=
  let ds := Nat.toDigits 10 e.natAbs
  (if e < 0 then '-' else '+') :: (List.replicate (2 - ds.length) '0' ++ ds)

/-- The digits of a positive decimal, laid out. -/
def digitsText (l : Layout) (d : Decimal) : List Char :=
  let ds := Nat.toDigits 10 d.digits
  let leading : Int := d.exponent + ds.length - 1
  if l.least ≤ leading ∧ leading < l.first then
    if 0 ≤ d.exponent then ds ++ List.replicate d.exponent.toNat '0' ++ ['.', '0']
    else if 0 ≤ leading then
      ds.take (leading + 1).toNat ++ '.' :: ds.drop (leading + 1).toNat
    else '0' :: '.' :: (List.replicate (-leading - 1).toNat '0' ++ ds)
  else
    match ds with
    | [] => []
    | [c] => c :: 'e' :: exponentText leading
    | c :: rest => c :: '.' :: (rest ++ 'e' :: exponentText leading)

/-- A double written by a layout, as list of characters. -/
def chars (l : Layout) : Double → List Char
  | .nan _ => l.notNumber.toList
  | .infinite s => (if s then ['-'] else []) ++ l.infinity.toList
  | .finite s m =>
    (if s then ['-'] else []) ++
      if m.val = 0 then ['0', '.', '0']
      else l.digitsText (Decimal.shortest l.grid (Double.unitsOfRank m))

/-- A double written by a layout. -/
def text (l : Layout) (x : Double) : String := String.ofList (l.chars x)

end Layout

/-- A double with a fixed number of decimal places; a tie goes to the even digit. -/
def Double.fixedText (places : Nat) : Double → String
  | .nan _ => "nan"
  | .infinite s => if s then "-inf" else "inf"
  | .finite s m =>
    let scaled := roundHalfEven (unitsOfRank m * Nat.pow 10 places) oneUnits
    let ds := Nat.toDigits 10 scaled
    let padded := List.replicate (places + 1 - ds.length) '0' ++ ds
    let whole := padded.take (padded.length - places)
    let rest := padded.drop (padded.length - places)
    String.ofList ((if s then ['-'] else []) ++ whole ++ if places = 0 then [] else '.' :: rest)

end Assay
