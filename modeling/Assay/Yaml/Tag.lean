import Assay.Yaml.Scalar.Moment

/-!
# Tags

A tag says what kind of value a node is. A node without one has the tag that its form shows: a plain
scalar that is written like a number, a truth value, a date or null is one, and all else is text.
-/

namespace Assay.Yaml

open Assay.Text

/-- The kinds of values, and all tags that name none of them. -/
inductive Tag where
  | null
  | bool
  | int
  | float
  | binary
  | timestamp
  | orderedMap
  | pairs
  | set
  | str
  | seq
  | map
  | merge
  | value
  | unknown
deriving DecidableEq, Repr

namespace Tag

/-- The start of the names of all known tags. -/
def core : String := "tag:yaml.org,2002:"

/-- The known tags by the end of their names. -/
def names : List (String × Tag) :=
  [("null", .null), ("bool", .bool), ("int", .int), ("float", .float), ("binary", .binary),
    ("timestamp", .timestamp), ("omap", .orderedMap), ("pairs", .pairs), ("set", .set),
    ("str", .str), ("seq", .seq), ("map", .map), ("merge", .merge), ("value", .value)]

/-- The tag of a full name. -/
def ofName (name : String) : Tag :=
  ((names.find? fun e => core ++ e.1 == name).map Prod.snd).getD .unknown

/-- The words for truth values, each also with a capital and in capitals. -/
def truthWords : List String := ["yes", "no", "true", "false", "on", "off"]

/-- A word with its first letter as a capital. -/
def capitalized (s : String) : String :=
  match s.toList with
  | c :: cs => String.ofList (c.toUpper :: cs)
  | [] => ""

/-- A text in one of three spellings of a word: in small letters, with a capital, in capitals. -/
def isWord (word text : String) : Bool :=
  text = word || text = capitalized word || text = word.map Char.toUpper

/-- Digits and underscores. -/
def isDigitOrScore (c : Char) : Bool := isDigit c || c = '_'

/-- The characters after a sign, if there is one. -/
def unsigned : List Char → List Char
  | '-' :: rest => rest
  | '+' :: rest => rest
  | cs => cs

/-- Characters that are not empty and all in a class. -/
def allOf (p : Char → Bool) (cs : List Char) : Bool := !cs.isEmpty && cs.all p

/-- The parts of a list between separators. -/
def splitAt (c : Char) (cs : List Char) : List (List Char) :=
  cs.foldr (fun a parts =>
    match parts with
    | [] => [[a]]
    | p :: ps => if a = c then [] :: p :: ps else (a :: p) :: ps) [[]]

/-- A digit of base sixty: one digit, or two that are below sixty. -/
def isSixty : List Char → Bool
  | [a] => isDigit a
  | [a, b] => '0' ≤ a && a ≤ '5' && isDigit b
  | _ => false

/-- Whether parts are a number in base sixty, of at least two digits; the first is of a form. -/
def isSexagesimal (first : List Char → Bool) (parts : List (List Char)) : Bool :=
  match parts with
  | p :: q :: rest => first p && (q :: rest).all isSixty
  | _ => false

/-- Digits with underscores that start with a digit other than zero. -/
def isWhole : List Char → Bool
  | c :: cs => '1' ≤ c && c ≤ '9' && cs.all isDigitOrScore
  | [] => false

/-- Digits with underscores that start with a digit. -/
def isRun : List Char → Bool
  | c :: cs => isDigit c && cs.all isDigitOrScore
  | [] => false

/-- The forms of integers: binary, octal, decimal, hexadecimal, and base sixty. -/
def isInt (cs : List Char) : Bool :=
  let body := unsigned cs
  match body with
  | '0' :: 'b' :: rest => allOf (fun c => c = '0' || c = '1' || c = '_') rest
  | '0' :: 'x' :: rest => allOf (fun c => (hexDigit? c).isSome || c = '_') rest
  | '0' :: rest => rest.all fun c => ('0' ≤ c && c ≤ '7') || c = '_'
  | _ => isWhole body || isSexagesimal isWhole (splitAt ':' body)

/-- An exponent that is missing or has a sign and digits. -/
def isExponent : List Char → Bool
  | [] => true
  | e :: s :: ds => (e = 'e' || e = 'E') && (s = '-' || s = '+') && allOf isDigit ds
  | _ => false

/-- The forms of decimal numbers: digits around a point with an exponent, base sixty with a point,
infinities, and not-a-number. -/
def isFloat (cs : List Char) : Bool :=
  let body := unsigned cs
  let whole := body.takeWhile (· ≠ '.')
  match body.dropWhile (· ≠ '.') with
  | [] => false
  | _ :: part =>
    let hasExponent (run : List Char) := isExponent (run.dropWhile isDigitOrScore)
    if whole.isEmpty then
      let word := String.ofList part
      (body = cs && (part.head?.elim false isDigit) && hasExponent part) || isWord "inf" word ||
        (body = cs && (word = "nan" || word = "NaN" || word = "NAN"))
    else
      (isRun whole && hasExponent part) ||
        (isSexagesimal isRun (splitAt ':' whole) && part.all isDigitOrScore)

/-- The forms of null. -/
def isNull (s : String) : Bool := s = "" || s = "~" || isWord "null" s

/-- The form of a date without a time, which has two digits for month and day. -/
def isDate : List Char → Bool
  | [a, b, c, d, '-', e, f, '-', g, h] => [a, b, c, d, e, f, g, h].all isDigit
  | _ => false

/-- The forms of dates. -/
def isTimestamp (cs : List Char) : Bool :=
  isDate cs || ((MomentParts.ofChars? cs).bind MomentParts.time).isSome

/-- The tag that the form of a plain scalar shows. -/
def ofPlain (s : String) : Tag :=
  let cs := s.toList
  if isNull s then .null
  else if truthWords.any fun w => isWord w s then .bool
  else if isInt cs then .int
  else if isFloat cs then .float
  else if isTimestamp cs then .timestamp
  else if s = "<<" then .merge
  else if s = "=" then .value
  else .str

end Tag

end Assay.Yaml
