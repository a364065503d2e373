/-!
# Code units

Escapes name characters by 16-bit units. Two surrogates, a high one and a low one, make one
character; one that stands alone is no character, and becomes the replacement character where texts are
made of characters.
-/

namespace Assay.Text

/-- The first half of a pair of surrogates. -/
def isHigh (n : Nat) : Bool := 0xD800 ≤ n && n < 0xDC00

/-- The second half of a pair of surrogates. -/
def isLow (n : Nat) : Bool := 0xDC00 ≤ n && n < 0xE000

/-- The character that stands for what is none. -/
def replacement : Char := Char.ofNat 0xFFFD

/-- The character of a code unit; a surrogate that stands alone becomes the replacement
character. -/
def unitChar (n : Nat) : Char := if 0xD800 ≤ n ∧ n < 0xE000 then replacement else Char.ofNat n

/-- The character of a pair of surrogates. -/
def pairChar (high low : Nat) : Char :=
  Char.ofNat (0x10000 + (high - 0xD800) * 0x400 + (low - 0xDC00))

end Assay.Text
