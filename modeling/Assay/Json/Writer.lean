import Assay.Json.Basic
import Assay.Number.Layout
import Assay.Text.Letter
import Assay.Text.Quoted

/-!
# Writing JSON texts

One writer with a style: what stands after commas and colons, whether members go on lines of their
own, and whether characters outside ASCII are escaped.
-/

namespace Assay.Json

/-- How a tree is laid out. -/
structure Style where
  comma : List Char
  colon : List Char
  indent : Option Nat
  escapeAll : Bool
deriving Repr

namespace Style

/-- No blanks. -/
def compact : Style := ⟨[','], [':'], none, false⟩

/-- A blank after commas and colons. -/
def spaced : Style := ⟨[',', ' '], [':', ' '], none, false⟩

/-- Members on lines of their own, indented by two, in ASCII. -/
def indented : Style := ⟨[','], [':', ' '], some 2, true⟩

/-- ASCII on one line. -/
def ascii : Style := ⟨[',', ' '], [':', ' '], none, true⟩

end Style

/-- A code unit as escape. -/
def unitEscape (n : Nat) : List Char := '\\' :: 'u' :: Text.hex 4 n

/-- The escapes of a code: one, or those of a pair of surrogates. -/
def escapes (n : Nat) : List Char :=
  if n < 0x10000 then unitEscape n
  else unitEscape (0xD800 + (n - 0x10000) / 0x400) ++ unitEscape (0xDC00 + (n - 0x10000) % 0x400)

section

open Letter

variable {τ χ : Type} [Letter χ] [Texts τ χ]

/-- One letter inside a string. -/
def writeLetter (escapeAll : Bool) (x : χ) : List χ :=
  let c := face x
  if c = '"' then spell ['\\', '"']
  else if c = '\\' then spell ['\\', '\\']
  else if c = '\n' then spell ['\\', 'n']
  else if c = '\r' then spell ['\\', 'r']
  else if c = '\t' then spell ['\\', 't']
  else if c.toNat = 8 then spell ['\\', 'b']
  else if c.toNat = 12 then spell ['\\', 'f']
  else if c.toNat < 32 then spell (unitEscape c.toNat)
  else if escapeAll && c.toNat > 126 then spell (escapes (code x))
  else [x]

/-- A string between quotation marks. -/
def writeString (escapeAll : Bool) (s : τ) : List χ :=
  ofChar '"' :: ((Texts.letters s).flatMap (writeLetter escapeAll) ++ [ofChar '"'])

/-- A line break with the indentation of a depth, if the style has any. -/
def lineBreak (st : Style) (depth : Nat) : List Char :=
  match st.indent with
  | none => []
  | some n => '\n' :: List.replicate (n * depth) ' '

/-- The parts of a collection between its brackets. -/
def enclose (st : Style) (depth : Nat) (opening closing : Char) (parts : List (List χ)) : List χ :=
  if parts.isEmpty then spell [opening, closing]
  else
    ofChar opening :: (spell (lineBreak st (depth + 1)) ++
      (spell (st.comma ++ lineBreak st (depth + 1))).intercalate parts ++ spell (lineBreak st depth) ++
        [ofChar closing])

mutual

/-- The text of a tree at a depth. -/
def write (st : Style) (depth : Nat) : Json τ → List χ
  | .null => spell "null".toList
  | .bool b => spell (if b then "true" else "false").toList
  | .int i => spell (toString i).toList
  | .float x => spell (Layout.json.chars x)
  | .str s => writeString st.escapeAll s
  | .arr xs => enclose st depth '[' ']' (writeItems st (depth + 1) xs)
  | .obj ms => enclose st depth '{' '}' (writeMembers st (depth + 1) ms)

/-- The texts of items. -/
def writeItems (st : Style) (depth : Nat) : List (Json τ) → List (List χ)
  | [] => []
  | x :: xs => write st depth x :: writeItems st depth xs

/-- The texts of members. -/
def writeMembers (st : Style) (depth : Nat) : List (τ × Json τ) → List (List χ)
  | [] => []
  | (k, v) :: ms =>
    (writeString st.escapeAll k ++ spell st.colon ++ write st depth v) :: writeMembers st depth ms

end

end

/-- The text of a tree. -/
def render (st : Style) (j : Json) : String := String.ofList (write st 0 j)

end Assay.Json
