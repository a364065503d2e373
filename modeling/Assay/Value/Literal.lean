import Assay.Number.Layout
import Assay.Text.Quoted
import Assay.Value.Basic
import Assay.Value.Fault

/-!
# Literal and plain texts of values

The literal of a value tells values of different kinds apart: texts stand in quotes and collections
in their brackets. The plain text is the literal, except that a text is itself, a read-only mapping
does not say so, and dates, foreign objects and scalars have texts of their own. Integers of more than
4300 digits have no text.
-/

namespace Assay

/-- The greatest number of decimal digits that are written or read. -/
def digitLimit : Nat := 4300

/-- The least magnitude with too many digits. -/
def digitBound : Nat := Nat.pow 10 digitLimit

/-- The decimal text of an integer, unless it has too many digits. -/
def integerText (i : Int) : Except Fault String :=
  if i.natAbs < digitBound then .ok (toString i) else .error .longInteger

namespace Element

/-- The layout of the floats of an element type. -/
def layout : Element → Layout
  | .half => .half
  | .single => .single
  | .extended => .extended
  | _ => .plain

end Element

namespace Value

/-- A truth value as literal. -/
def boolText (b : Bool) : String := if b then "True" else "False"

/-- The literal of a plain item. -/
def itemLiteral : Item → String
  | .bool b => boolText b
  | .int i => toString i
  | .float x => Layout.plain.text x
  | .str s => Text.quote s

/-- The text of a scalar's item, in the layout of its element type. -/
def scalarText (e : Element) : Item → String
  | .bool b => boolText b
  | .int i => toString i
  | .float x => e.layout.text x
  | .str s => s

/-- The literal of a scalar. -/
def scalarLiteral (e : Element) (item : Item) : String :=
  match item with
  | .bool b => "np." ++ boolText b ++ "_"
  | .str s => s!"np.str_(" ++ Text.quote s ++ ")"
  | _ =>
    let text := scalarText e item
    "np." ++ e.className ++ "(" ++ (if e = .extended then Text.quote text else text) ++ ")"

mutual

/-- The literal of a value. -/
def literal : Value → Except Fault String
  | .absent => .ok "MISSING"
  | .null => .ok "None"
  | .bool b => .ok (boolText b)
  | .int i => integerText i
  | .float x => .ok (Layout.plain.text x)
  | .str s => .ok (Text.quote s)
  | .list xs => do
    let parts ← literals xs
    return "[" ++ ", ".intercalate parts ++ "]"
  | .tuple xs => do
    match ← literals xs with
    | [one] => return "(" ++ one ++ ",)"
    | parts => return "(" ++ ", ".intercalate parts ++ ")"
  | .map frozen es => do
    let body := "\x7b" ++ ", ".intercalate (← entryLiterals es) ++ "\x7d"
    return if frozen then "mappingproxy(" ++ body ++ ")" else body
  | .bytes bs => .ok (Text.quoteBytes bs)
  | .date d => .ok d.shown
  | .moment m => .ok m.shown
  | .foreign o => .ok o.shown
  | .scalar e i => .ok (scalarLiteral e i)
  | .array _ v => do return "array(" ++ (← literal v) ++ ")"

/-- The literals of a sequence. -/
def literals : List Value → Except Fault (List String)
  | [] => .ok []
  | x :: xs => do
    let t ← literal x
    return t :: (← literals xs)

/-- The literals of the entries of a mapping, key before value. -/
def entryLiterals : List (Value × Value) → Except Fault (List String)
  | [] => .ok []
  | (k, v) :: es => do
    let kt ← literal k
    let vt ← literal v
    return (kt ++ ": " ++ vt) :: (← entryLiterals es)

end

/-- The plain text of a value. -/
def text : Value → Except Fault String
  | .str s => .ok s
  | .date d => .ok d.text
  | .moment m => .ok m.text
  | .foreign o => .ok o.text
  | .scalar e i => .ok (scalarText e i)
  | .array _ v => literal v
  | .map _ es => literal (.map false es)
  | v => literal v

@[simp] theorem text_str (s : String) : text (.str s) = .ok s := rfl

end Value

end Assay
