import Assay.Text.Printable

/-!
# Quoted texts and byte strings

A quoted text stands between apostrophes, or between quotation marks when it holds an apostrophe
and no quotation mark. The mark in use and the backslash are written with a backslash, three
controls by letter, and everything that is not printable by its code in hexadecimal.
-/

namespace Assay.Text

/-- The digits of a number in lower-case hexadecimal, padded with zeros to a width. -/
def hex (width n : Nat) : List Char :=
  let ds := Nat.toDigits 16 n
  List.replicate (width - ds.length) '0' ++ ds

/-- The mark that stands around a quoted text. -/
def markFor (cs : List Char) : Char := if cs.contains '\'' && !cs.contains '"' then '"' else '\''

/-- One character inside a text quoted by `mark`. -/
def quoteChar (mark c : Char) : List Char :=
  if c = mark ∨ c = '\\' then ['\\', c]
  else if c = '\t' then ['\\', 't']
  else if c = '\n' then ['\\', 'n']
  else if c = '\r' then ['\\', 'r']
  else if isPrintable c then [c]
  else if c.toNat < 0x100 then '\\' :: 'x' :: hex 2 c.toNat
  else if c.toNat < 0x10000 then '\\' :: 'u' :: hex 4 c.toNat
  else '\\' :: 'U' :: hex 8 c.toNat

/-- A text in quotes, as list of characters. -/
def quoteChars (cs : List Char) : List Char :=
  let mark := markFor cs
  mark :: (cs.flatMap (quoteChar mark) ++ [mark])

/-- A text in quotes. -/
def quote (s : String) : String := String.ofList (quoteChars s.toList)

/-- One byte inside a byte string quoted by `mark`. -/
def quoteByte (mark : Char) (b : UInt8) : List Char :=
  let c := Char.ofNat b.toNat
  if c = mark ∨ c = '\\' then ['\\', c]
  else if c = '\t' then ['\\', 't']
  else if c = '\n' then ['\\', 'n']
  else if c = '\r' then ['\\', 'r']
  else if 32 ≤ b.toNat ∧ b.toNat < 127 then [c]
  else '\\' :: 'x' :: hex 2 b.toNat

/-- A byte string in quotes, after the letter `b`. -/
def quoteBytes (bs : List UInt8) : String :=
  let mark := markFor (bs.map fun b => Char.ofNat b.toNat)
  String.ofList ('b' :: mark :: (bs.flatMap (quoteByte mark) ++ [mark]))

end Assay.Text
