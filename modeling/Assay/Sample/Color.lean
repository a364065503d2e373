import Assay.Comparison.Tolerance
import Assay.Number.Power
import Assay.Value.Access
import Assay.Value.Normal

/-!
# Colour conversions

Operations on colours as an example of an implementation: hexadecimal texts, channels, luminance.
A hexadecimal text is a number sign and two digits for each of the three channels.
-/

namespace Assay.Sample.Color

open Assay.Text

/-! ### Hexadecimal texts -/

/-- An upper-case hexadecimal digit. -/
def upperDigit (d : Nat) : Char := if d < 10 then Char.ofNat (48 + d) else Char.ofNat (55 + d)

/-- An integer in upper-case hexadecimal, filled up with zeros to two characters. -/
def hexText (i : Int) : List Char :=
  let ds := (Nat.toDigits 16 i.natAbs).map Char.toUpper
  if i < 0 then '-' :: (List.replicate (1 - ds.length) '0' ++ ds)
  else List.replicate (2 - ds.length) '0' ++ ds

/-- A channel in a hexadecimal text; only integers have one, and dates give the layout back. -/
def channelText (v : Value) : Except Failure (List Char) :=
  match v with
  | .int i => .ok (hexText i)
  | .bool b => .ok (hexText (if b then 1 else 0))
  | .float _ => .error (.told "ValueError" "Unknown format code 'X' for object of type 'float'")
  | .str _ => .error (.told "ValueError" "Unknown format code 'X' for object of type 'str'")
  | .date _ => .ok "02X".toList
  | .moment _ => .ok "02X".toList
  | v => .error (.type s!"unsupported format string passed to {v.className}.__format__")

/-- The channels of a value. -/
def channels (v : Value) : Except Failure (Value × Value × Value) := do
  return (← v.part "r", ← v.part "g", ← v.part "b")

/-- The hexadecimal text of three integers. -/
def encode (r g b : Int) : List Char := '#' :: (hexText r ++ hexText g ++ hexText b)

/-- The hexadecimal text of channels. -/
def rgbToHex (v : Value) : Except Failure Value := do
  let (r, g, b) ← channels v
  let text := '#' :: ((← channelText r) ++ (← channelText g) ++ (← channelText b))
  return .dict [(.str "hex", .str (String.ofList text))]

/-- The integer that two characters of a text spell in hexadecimal. -/
def pairValue (cs : List Char) : Except Failure Int :=
  match Numeral.int? 16 cs with
  | some i => .ok i
  | none =>
    .error (.told "ValueError" ("invalid literal for int() with base 16: " ++
      quote (String.ofList cs)))

/-- The integers that a hexadecimal text spells. -/
def decode (cs : List Char) : Except Failure (Int × Int × Int) := do
  let ds := cs.dropWhile (· = '#')
  let r ← pairValue (ds.take 2)
  let g ← pairValue ((ds.drop 2).take 2)
  let b ← pairValue ((ds.drop 4).take 2)
  return (r, g, b)

/-- The channels of a hexadecimal text. -/
def hexToRgb (v : Value) : Except Failure Value := do
  match ← v.part "hex" with
  | .str s =>
    let (r, g, b) ← decode s.toList
    return .dict [(.str "r", .int r), (.str "g", .int g), (.str "b", .int b)]
  | .bytes _ => .error (.type "a bytes-like object is required, not 'str'")
  | w => .error (.told "AttributeError" s!"'{w.qualifiedName}' object has no attribute 'lstrip'")

/-- A number sign and six hexadecimal digits, perhaps before a line break. -/
def isValid (cs : List Char) : Bool :=
  match cs with
  | '#' :: rest =>
    (rest.take 6).length = 6 && (rest.take 6).all (fun c => (hexDigit? c).isSome) &&
      (rest.drop 6 = [] || rest.drop 6 = ['\n'])
  | _ => false

/-- Whether a text is a hexadecimal colour. -/
def isValidHex (v : Value) : Except Failure Value := do
  match ← v.part "hex" with
  | .str s => return .dict [(.str "valid", .bool (isValid s.toList))]
  | .bytes _ => .error (.type "cannot use a string pattern on a bytes-like object")
  | w => .error (.type s!"expected string or bytes-like object, got '{w.className}'")

/-! ### Channels -/

/-- The channels as a sequence. -/
def rgbToArray (v : Value) : Except Failure Value := do
  let (r, g, b) ← channels v
  return .tuple [r, g, b]

/-- The distance of a channel from 255. -/
def inverted (v : Value) : Except Failure Value :=
  match v.number? with
  | some (.int i) => .ok (.int (255 - i))
  | some (.float x) => .ok (.float ((Double.ofInt 255).sub x))
  | none => .error (.operands "-" (.int 255) v)

/-- The inverted colour. -/
def invertColor (v : Value) : Except Failure Value := do
  let r ← inverted (← v.part "r")
  let g ← inverted (← v.part "g")
  let b ← inverted (← v.part "b")
  return .dict [(.str "r", r), (.str "g", g), (.str "b", b)]

/-- A conversion that is not there. -/
def hslToRgb (_ : Value) : Except Failure Value :=
  .error (.told "NotImplementedError" "HSL conversion not implemented")

/-! ### Luminance -/

/-- A channel as double; null is not a number. -/
def channelDouble (v : Value) : Except Failure Double :=
  match v with
  | .null => .ok (.nan 0)
  | .list _ =>
    .error <| .told "ValueError" <|
      "setting an array element with a sequence. The requested array has an inhomogeneous shape " ++
        "after 1 dimensions. The detected shape was (3,) + inhomogeneous part."
  | v =>
    match Tolerance.toDouble v with
    | .ok x => .ok x
    | .error f => .error f.failure

/-- A decimal constant as double. -/
def constant (digits : Nat) (exponent : Int) : Double := Double.ofDecimal false digits exponent

/-- The linear value of a channel: a straight line near zero and a power above it. -/
def linear (x : Double) : Double :=
  let s := x.div (Double.ofInt 255)
  if s.le (constant 3928 (-5)) then s.div (constant 1292 (-2))
  else ((s.add (constant 55 (-3))).div (constant 1055 (-3))).powTwelveFifths

/-- The weighted sum of the linear channels. -/
def luminance (v : Value) : Except Failure Double := do
  let (r, g, b) ← channels v
  let r ← channelDouble r
  let g ← channelDouble g
  let b ← channelDouble b
  return ((constant 2126 (-4)).mul (linear r)).add ((constant 7152 (-4)).mul (linear g)) |>.add
    ((constant 722 (-4)).mul (linear b))

/-- The conversions by name. -/
def conversions : List (String × (Value → Except Failure Value)) :=
  [("hex_to_rgb", hexToRgb), ("rgb_to_hex", rgbToHex), ("is_valid_hex", isValidHex),
    ("rgb_to_array", rgbToArray), ("invert_color", invertColor), ("hsl_to_rgb", hslToRgb)]

example : isValid "#FF8000".toList = true := by decide +kernel

example : hexText (-16) = ['-', '1', '0'] := by decide +kernel

end Assay.Sample.Color
