/-!
# Base 64

Each character of the alphabet stands for six bits. Characters outside the alphabet are passed over.
Padding ends the text once it fills a group of four; a text that ends inside a group is refused.
-/

namespace Assay.Text.Base64

/-- The six bits of a character of the alphabet. -/
def bits? (c : Char) : Option Nat :=
  if 'A' ≤ c ∧ c ≤ 'Z' then some (c.toNat - 65)
  else if 'a' ≤ c ∧ c ≤ 'z' then some (c.toNat - 71)
  else if '0' ≤ c ∧ c ≤ '9' then some (c.toNat + 4)
  else if c = '+' then some 62
  else if c = '/' then some 63
  else none

/-- The bytes of a text inside a group: the number of its characters so far, the bits that no byte
has taken yet, and the number of paddings since the last character. -/
def decodeFrom : Nat → Nat → Nat → List Char → Option (List UInt8)
  | position, _, _, [] => if position = 0 then some [] else none
  | position, left, paddings, c :: cs =>
    if c = '=' then
      if position < 2 then decodeFrom position left paddings cs
      else if position + paddings + 1 ≥ 4 then some []
      else decodeFrom position left (paddings + 1) cs
    else
      match bits? c with
      | none => decodeFrom position left paddings cs
      | some b =>
        match position with
        | 0 => decodeFrom 1 b 0 cs
        | 1 => (decodeFrom 2 (b % 16) 0 cs).map (UInt8.ofNat (4 * left + b / 16) :: ·)
        | 2 => (decodeFrom 3 (b % 4) 0 cs).map (UInt8.ofNat (16 * left + b / 4) :: ·)
        | _ => (decodeFrom 0 0 0 cs).map (UInt8.ofNat (64 * left + b) :: ·)

/-- The bytes of a text. -/
def decode (cs : List Char) : Option (List UInt8) := decodeFrom 0 0 0 cs

end Assay.Text.Base64
