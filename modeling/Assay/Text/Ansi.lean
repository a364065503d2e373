/-!
# Terminal colours

Colours are escape sequences around a text. On anything but a terminal the sequences are taken out:
an escape, a bracket, parameters, and one letter that ends the sequence.
-/

namespace Assay.Text

/-- The colours in use. -/
inductive Color where
  | green
  | red
  | cyan
  | yellow
deriving DecidableEq, Repr

/-- The escape character. -/
def escapeChar : Char := Char.ofNat 27

/-- The code of a colour. -/
def Color.code : Color → String
  | .red => "31"
  | .green => "32"
  | .yellow => "33"
  | .cyan => "36"

/-- An escape sequence with a code. -/
def sequence (code : String) : String := String.ofList [escapeChar, '['] ++ code ++ "m"

/-- A text in a colour, which is reset after it. -/
def colored (c : Color) (s : String) : String := sequence c.code ++ s ++ sequence "0"

/-- A parameter character of a sequence. -/
def isParameter (c : Char) : Bool := c = ';' || c = '?' || ('0' ≤ c && c ≤ '9')

/-- An ASCII letter. -/
def isLetter (c : Char) : Bool := ('a' ≤ c && c ≤ 'z') || ('A' ≤ c && c ≤ 'Z')

/-- The rest after a sequence whose escape and bracket have been read, if it is one. -/
def afterSequence (cs : List Char) : Option (List Char) :=
  match cs.dropWhile isParameter with
  | c :: rest => if isLetter c then some rest else none
  | [] => none

/-- Takes all sequences out; the budget bounds the number of steps. -/
def stripFrom : Nat → List Char → List Char
  | 0, cs => cs
  | _, [] => []
  | budget + 1, c :: rest =>
    if c = escapeChar then
      match rest with
      | '[' :: more =>
        match afterSequence more with
        | some after => stripFrom budget after
        | none => c :: stripFrom budget rest
      | _ => c :: stripFrom budget rest
    else c :: stripFrom budget rest

/-- A text without its escape sequences. -/
def plain (s : String) : String := String.ofList (stripFrom s.length s.toList)

end Assay.Text
