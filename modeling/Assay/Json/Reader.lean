import Assay.Json.Basic
import Assay.Text.Digit
import Assay.Text.Letter
import Assay.Value.Literal

/-!
# Reading JSON texts

A reader on lists of letters that gives either the tree or the first fault with its place. What a letter
stands for is told by its face, and the letters of a string are kept as they are. The words `NaN`,
`Infinity` and `-Infinity` are doubles; a number without point and exponent is an integer of any size up
to the digit limit.
-/

namespace Assay.Json

open Assay.Text Letter

variable {τ χ : Type} [Letter χ] [Texts τ χ]

/-! ### Faults -/

/-- What a reader can miss or refuse. -/
inductive ReadCause where
  | value
  | propertyName
  | colon
  | comma
  | unterminatedString
  | controlCharacter
  | escape
  | unicodeEscape
  | extraData
  | byteOrderMark
deriving DecidableEq, Repr

namespace ReadCause

/-- The wording of a cause. -/
def message : ReadCause → String
  | .value => "Expecting value"
  | .propertyName => "Expecting property name enclosed in double quotes"
  | .colon => "Expecting ':' delimiter"
  | .comma => "Expecting ',' delimiter"
  | .unterminatedString => "Unterminated string starting at"
  | .controlCharacter => "Invalid control character at"
  | .escape => "Invalid \\escape"
  | .unicodeEscape => "Invalid \\uXXXX escape"
  | .extraData => "Extra data"
  | .byteOrderMark => "Unexpected UTF-8 BOM (decode using utf-8-sig)"

end ReadCause

/-- Where reading stopped, by the number of characters that were left, or an integer that has more
digits than are read. -/
inductive Stop where
  | at (cause : ReadCause) (left : Nat)
  | digits (count : Nat)
deriving DecidableEq, Repr

/-- A fault of a text, at a character position from zero. -/
inductive ReadFault where
  | misplaced (cause : ReadCause) (line column position : Nat)
  | longInteger (digits : Nat)
deriving DecidableEq, Repr

namespace ReadFault

/-- The wording of a fault. -/
def message : ReadFault → String
  | .misplaced c line column position =>
    c.message ++ s!": line {line} column {column} (char {position})"
  | .longInteger n =>
    s!"Exceeds the limit (4300 digits) for integer string conversion: value has {n} digits; " ++
      "use sys.set_int_max_str_digits() to increase the limit"

end ReadFault

/-- Stops before the given rest. -/
def stop {α ξ : Type} (cause : ReadCause) (rest : List ξ) : Except Stop α :=
  .error (.at cause rest.length)

/-! ### Blanks, strings and numbers -/

/-- The four blanks between tokens. -/
def isBlank (c : Char) : Bool := c = ' ' || c = '\t' || c = '\n' || c = '\r'

/-- The rest after blanks. -/
def skip (cs : List χ) : List χ := cs.dropWhile fun x => isBlank (face x)

/-- The character of a one-letter escape. -/
def escape? : Char → Option Char
  | '"' => some '"'
  | '\\' => some '\\'
  | '/' => some '/'
  | 'b' => some (Char.ofNat 8)
  | 'f' => some (Char.ofNat 12)
  | 'n' => some '\n'
  | 'r' => some '\r'
  | 't' => some '\t'
  | _ => none

/-- The number of four hexadecimal digits. -/
def hex4? (a b c d : χ) : Option Nat := do
  return (((← hexDigit? (face a)) * 16 + (← hexDigit? (face b))) * 16 + (← hexDigit? (face c))) * 16 +
    (← hexDigit? (face d))

/-- A letter with what is read behind it. -/
def consRead (x : χ) (r : Except Stop (List χ × List χ)) : Except Stop (List χ × List χ) :=
  r.map fun r => (x :: r.1, r.2)

/-- Reads the rest of a string whose opening mark had `opening` letters left. -/
def readString (opening : Nat) : List χ → Except Stop (List χ × List χ)
  | [] => .error (.at .unterminatedString opening)
  | x :: rest =>
    if face x = '"' then .ok ([], rest)
    else if face x = '\\' then
      match rest with
      | [] => .error (.at .unterminatedString opening)
      | e :: rest =>
        if face e = 'u' then
          match rest with
          | a :: b :: c :: d :: rest =>
            match hex4? a b c d, rest with
            | none, _ => stop .unicodeEscape (e :: a :: b :: c :: d :: rest)
            | some _, [] => stop .unicodeEscape [e, a, b, c, d]
            | some high, y :: u :: a' :: b' :: c' :: d' :: z :: after =>
              if face y = '\\' ∧ face u = 'u' ∧ isHigh high = true then
                match hex4? a' b' c' d' with
                | none => stop .unicodeEscape (u :: a' :: b' :: c' :: d' :: z :: after)
                | some low =>
                  if isLow low then consRead (ofChar (pairChar high low)) (readString opening (z :: after))
                  else
                    consRead (ofUnit high)
                      (readString opening (y :: u :: a' :: b' :: c' :: d' :: z :: after))
              else
                consRead (ofUnit high) (readString opening (y :: u :: a' :: b' :: c' :: d' :: z :: after))
            | some n, y :: rest => consRead (ofUnit n) (readString opening (y :: rest))
          | rest => stop .unicodeEscape (e :: rest)
        else
          match escape? (face e) with
          | none => stop .escape (x :: e :: rest)
          | some c => consRead (ofChar c) (readString opening rest)
    else if (face x).toNat < 32 then stop .controlCharacter (x :: rest)
    else consRead x (readString opening rest)

/-- The value of decimal digits. -/
def digitsValue (ds : List Char) : Nat := ds.foldl (fun n c => 10 * n + (c.toNat - 48)) 0

/-- The digits of the whole part: a zero alone, or digits that start with another. -/
def wholePart : List Char → Option (List Char × List Char)
  | '0' :: rest => some (['0'], rest)
  | c :: rest =>
    if isDigit c then some (c :: rest.takeWhile isDigit, rest.dropWhile isDigit) else none
  | [] => none

/-- The digits after a point, if at least one follows it. -/
def fractionPart : List Char → List Char × List Char
  | '.' :: c :: rest =>
    if isDigit c then (c :: rest.takeWhile isDigit, rest.dropWhile isDigit)
    else ([], '.' :: c :: rest)
  | rest => ([], rest)

/-- The exponent, if its mark is followed by a digit, perhaps after a sign. -/
def exponentPart (cs : List Char) : Option Int × List Char :=
  match cs with
  | m :: rest =>
    if m = 'e' ∨ m = 'E' then
      let (negative, ds) := match rest with
        | '-' :: r => (true, r)
        | '+' :: r => (false, r)
        | r => (false, r)
      match ds.takeWhile isDigit with
      | [] => (none, cs)
      | run =>
        let n : Int := digitsValue run
        (some (if negative then -n else n), ds.dropWhile isDigit)
    else (none, cs)
  | [] => (none, cs)

/-- Whether a number has a minus sign, and the rest. -/
def minusPart : List Char → Bool × List Char
  | '-' :: rest => (true, rest)
  | rest => (false, rest)

/-- Reads a number; without point and exponent it is an integer. -/
def readNumber (cs : List Char) : Except Stop (Json τ × List Char) :=
  let (negative, body) := minusPart cs
  match wholePart body with
  | none => stop .value cs
  | some (whole, rest) =>
    let (part, rest) := fractionPart rest
    let (exponent, rest) := exponentPart rest
    if part.isEmpty && exponent.isNone then
      if whole.length > digitLimit then .error (.digits whole.length)
      else
        let n : Int := digitsValue whole
        .ok (.int (if negative then -n else n), rest)
    else
      let digits := digitsValue (whole ++ part)
      .ok (.float (.ofDecimal negative digits (exponent.getD 0 - part.length)), rest)

/-- Reads a word or a number. -/
def readScalar (cs : List Char) : Except Stop (Json τ × List Char) :=
  let word (w : String) (j : Json τ) : Option (Json τ × List Char) :=
    if w.toList.isPrefixOf cs then some (j, cs.drop w.length) else none
  match word "null" .null <|> word "true" (.bool true) <|> word "false" (.bool false) <|>
      word "NaN" (.float (.nan 0)) <|> word "Infinity" (.float (.infinite false)) <|>
      word "-Infinity" (.float (.infinite true)) with
  | some r => .ok r
  | none => readNumber cs

/-- Reads a word or a number off letters, by what they look like. -/
def readToken (xs : List χ) : Except Stop (Json τ × List χ) :=
  (readScalar (faces xs)).map fun r => (r.1, xs.drop (xs.length - r.2.length))

/-! ### Trees -/

/-- What stands behind a mark, if letters start with it. -/
def after? (mark : Char) : List χ → Option (List χ)
  | x :: rest => if face x = mark then some rest else none
  | [] => none

mutual

/-- Reads a tree that starts at the first letter. -/
def readTree : Nat → List χ → Except Stop (Json τ × List χ)
  | 0, xs => stop .value xs
  | _ + 1, [] => readToken []
  | fuel + 1, x :: rest =>
    match face x with
    | '"' => do
      let (s, rest) ← readString (rest.length + 1) rest
      return (.str (Texts.ofLetters s), rest)
    | '{' =>
      match after? '}' (skip rest) with
      | some rest => .ok (.obj [], rest)
      | none => do
        let (ms, rest) ← readMembers fuel (skip rest)
        return (.obj ms, rest)
    | '[' =>
      match after? ']' (skip rest) with
      | some rest => .ok (.arr [], rest)
      | none => do
        let (items, rest) ← readItems fuel (skip rest)
        return (.arr items, rest)
    | _ => readToken (x :: rest)

/-- Reads the members of an object up to its closing brace. -/
def readMembers : Nat → List χ → Except Stop (List (τ × Json τ) × List χ)
  | 0, xs => stop .propertyName xs
  | fuel + 1, xs =>
    match after? '"' xs with
    | none => stop .propertyName xs
    | some rest => do
      let (name, rest) ← readString (rest.length + 1) rest
      match after? ':' (skip rest) with
      | none => stop .colon (skip rest)
      | some rest => do
        let (v, rest) ← readTree fuel (skip rest)
        let m := (Texts.ofLetters name, v)
        match after? '}' (skip rest), after? ',' (skip rest) with
        | some rest, _ => return ([m], rest)
        | none, some rest => do
          let (ms, rest) ← readMembers fuel (skip rest)
          return (m :: ms, rest)
        | none, none => stop .comma (skip rest)

/-- Reads the items of an array up to its closing bracket. -/
def readItems : Nat → List χ → Except Stop (List (Json τ) × List χ)
  | 0, xs => stop .value xs
  | fuel + 1, xs => do
    let (x, rest) ← readTree fuel xs
    match after? ']' (skip rest), after? ',' (skip rest) with
    | some rest, _ => return ([x], rest)
    | none, some rest => do
      let (items, rest) ← readItems fuel (skip rest)
      return (x :: items, rest)
    | none, none => stop .comma (skip rest)

end

/-- The fault at a stop: lines and columns count from one. -/
def faultAt (cs : List Char) : Stop → ReadFault
  | .digits n => .longInteger n
  | .at cause left =>
    let position := cs.length - left
    let before := cs.take position
    let line := before.countP (· = '\n') + 1
    let column := (before.reverse.takeWhile (· ≠ '\n')).length + 1
    .misplaced cause line column position

/-- The tree of a whole text, letter by letter. -/
def parseChars (xs : List χ) : Except ReadFault (Json τ) :=
  let run : Except Stop (Json τ) := do
    match xs with
    | x :: _ => if (face x).toNat = 0xFEFF then stop .byteOrderMark xs
    | [] => pure ()
    let (j, rest) ← readTree (xs.length + 1) (skip xs)
    match skip rest with
    | [] => return j
    | rest => stop .extraData rest
  run.mapError (faultAt (faces xs))

/-- The tree of a whole text. -/
def parse (s : String) : Except ReadFault Json := parseChars s.toList

/-- A closing mark ends a string at once. -/
theorem readString_mark (n : Nat) (rest : List χ) :
    readString n (ofChar '"' :: rest) = .ok ([], rest) := by
  unfold readString
  simp

/-- A text without blanks at its front is kept. -/
theorem skip_cons_of_not_isBlank {x : χ} {xs : List χ} (h : isBlank (face x) = false) :
    skip (x :: xs) = x :: xs := by
  simp [skip, h]

end Assay.Json
