/-!
# Characters of YAML

The characters that may stand in a text, the line breaks, and the classes that end names, tags and
plain scalars. Where a rule speaks of a place, the end of the text is a place without a character.
-/

namespace Assay.Yaml

/-- The characters that may stand in a text: no controls but tab and line ends. -/
def isAllowed (c : Char) : Bool :=
  let n := c.toNat
  n = 9 || n = 10 || n = 13 || (32 ≤ n && n ≤ 0x7E) || n = 0x85 || (0xA0 ≤ n && n ≤ 0xD7FF) ||
    (0xE000 ≤ n && n ≤ 0xFFFD) || 0x10000 ≤ n

/-- The mark that may stand before a text and takes no column. -/
def byteOrderMark : Char := Char.ofNat 0xFEFF

/-- A line break. -/
def isBreak (c : Char) : Bool :=
  c = '\n' || c = '\r' || c.toNat = 0x85 || c.toNat = 0x2028 || c.toNat = 0x2029

/-- What a line break is read as: a line feed, except for the two Unicode separators. -/
def breakChar (c : Char) : Char := if c.toNat = 0x2028 ∨ c.toNat = 0x2029 then c else '\n'

/-- A space or a tab. -/
def isBlank (c : Char) : Bool := c = ' ' || c = '\t'

/-- A place without a character, or with one of a class. -/
def ends (p : Char → Bool) : Option Char → Bool
  | none => true
  | some c => p c

/-- A place at which a word ends: a blank or the end of the line. -/
def endsWord : Option Char → Bool := ends fun c => isBlank c || isBreak c

/-- A place at which a tag or a directive ends: a space or the end of the line. -/
def endsMark : Option Char → Bool := ends fun c => c = ' ' || isBreak c

/-- The characters of names of anchors and directives. -/
def isNameChar (c : Char) : Bool := c.isAlphanum || c = '-' || c = '_'

/-- The characters of the text of a tag. -/
def isTagChar (c : Char) : Bool :=
  c.isAlphanum || "-;/?:@&=+$,_.!~*'()[]%".toList.contains c

/-- The characters that open, close or divide flow collections. -/
def isFlowMark (c : Char) : Bool := c = ',' || c = '[' || c = ']' || c = '\x7b' || c = '\x7d'

end Assay.Yaml
