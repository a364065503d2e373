import Assay.Value.Literal

/-!
# Dump texts

A text that shows a value exactly, with the kinds of collections told apart. It is total: integers
of any size are written out.
-/

namespace Assay.Value

/-- One character inside a dumped text: quotation marks, backslashes and controls are escaped. -/
def dumpChar (c : Char) : List Char :=
  if c = '"' then ['\\', '"']
  else if c = '\\' then ['\\', '\\']
  else if c = '\n' then ['\\', 'n']
  else if c = '\r' then ['\\', 'r']
  else if c = '\t' then ['\\', 't']
  else if c.toNat = 8 then ['\\', 'b']
  else if c.toNat = 12 then ['\\', 'f']
  else if c.toNat < 32 then '\\' :: 'u' :: Text.hex 4 c.toNat
  else [c]

/-- A text between quotation marks. -/
def dumpString (s : String) : String :=
  String.ofList ('"' :: (s.toList.flatMap dumpChar ++ ['"']))

mutual

/-- The dump text of a value. -/
def dump : Value → String
  | .absent => "MISSING"
  | .null => "null"
  | .bool b => if b then "true" else "false"
  | .int i => toString i
  | .float x => Layout.plain.text x
  | .str s => dumpString s
  | .list xs => "[" ++ ", ".intercalate (dumpAll xs) ++ "]"
  | .tuple xs => "(" ++ ", ".intercalate (dumpAll xs) ++ ")"
  | .map frozen es =>
    (if frozen then "proxy" else "") ++ "\x7b" ++ ", ".intercalate (dumpEntries es) ++ "\x7d"
  | .bytes bs => "<bytes:" ++ Text.quoteBytes bs ++ ">"
  | .date d => "<date:" ++ d.text ++ ">"
  | .moment m => "<datetime:" ++ m.text ++ ">"
  | .foreign o => "<" ++ o.className ++ ":" ++ o.text ++ ">"
  | .scalar e i =>
    "<" ++ e.className ++ ":" ++ (if e = .extended then scalarLiteral e i else itemLiteral i) ++ ">"
  | .array _ v => "<ndarray:" ++ dump v ++ ">"

/-- The dump texts of a sequence. -/
def dumpAll : List Value → List String
  | [] => []
  | x :: xs => dump x :: dumpAll xs

/-- The dump texts of the entries of a mapping. -/
def dumpEntries : List (Value × Value) → List String
  | [] => []
  | (k, v) :: es => (dump k ++ ": " ++ dump v) :: dumpEntries es

end

/-- The dump text of a value that may be absent. -/
def dumpOption : Option Value → String
  | none => "MISSING"
  | some v => dump v

end Assay.Value
