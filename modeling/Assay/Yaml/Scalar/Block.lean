import Assay.Yaml.Cursor
import Assay.Yaml.Fault

/-!
# Block scalars

A scalar on lines of its own that are indented more than what holds it. A literal one keeps its line
breaks; in a folded one a break between two lines that start with a word is a space. The header says
what becomes of the breaks at the end, and may give the indentation.
-/

namespace Assay.Yaml

/-- What becomes of the breaks at the end: the first is kept, none, or all. -/
inductive Chomping where
  | clip
  | strip
  | keep
deriving DecidableEq, Repr

namespace Block

/-- The chomping that a sign asks for. -/
def chomping? : Option Char → Option Chomping
  | some '+' => some .keep
  | some '-' => some .strip
  | _ => none

/-- The indentation that a digit asks for. -/
def increment? (c : Option Char) : Option Nat :=
  match c with
  | some d => if '0' ≤ d ∧ d ≤ '9' then some (d.toNat - 48) else none
  | none => none

/-- The header after its indicator: a sign and a digit in either order, each of which may be
missing, and the place after them. -/
def header (c : Cursor) : Chomping × Option Nat × Cursor :=
  match chomping? c.here?, increment? c.here? with
  | some ch, _ =>
    match increment? c.next.here? with
    | some n => (ch, some n, c.advance 2)
    | none => (ch, none, c.next)
  | none, some n =>
    match chomping? c.next.here? with
    | some ch => (ch, some n, c.advance 2)
    | none => (.clip, some n, c.next)
  | none, none => (.clip, none, c)

/-- The place after the rest of a header's line, which may hold a comment. -/
def afterHeader (c : Cursor) : Except Fault Cursor :=
  let c := (c.skipWhile (· = ' ')).skipComment
  match c.rest, c.break? with
  | [], _ => .ok c
  | _, some (_, c) => .ok c
  | _, none => .error .broken

/-- The place after spaces, up to a column. -/
def indentTo (column : Nat) : Nat → Cursor → Cursor
  | 0, c => c
  | fuel + 1, c =>
    if c.column < column ∧ c.here? = some ' ' then indentTo column fuel c.next else c

/-- The breaks of empty lines, with up to an indentation of spaces passed over. -/
def breaks (indentation : Nat) : Nat → Cursor → List Char × Cursor
  | 0, c => ([], c)
  | fuel + 1, c =>
    let c := indentTo indentation c.rest.length c
    match c.break? with
    | none => ([], c)
    | some (b, c) =>
      let (more, c) := breaks indentation fuel c
      (b :: more, c)

/-- The breaks of empty lines, and the greatest column that their spaces and those of the first line
with a word reach. -/
def leading : Nat → Nat → Cursor → List Char × Nat × Cursor
  | 0, deepest, c => ([], deepest, c)
  | fuel + 1, deepest, c =>
    if c.here? = some ' ' then leading fuel (max deepest c.next.column) c.next
    else
      match c.break? with
      | none => ([], deepest, c)
      | some (b, c) =>
        let (more, deepest, c) := leading fuel deepest c
        (b :: more, deepest, c)

/-- Whether a line of an indentation starts here. -/
def atLine (indentation : Nat) (c : Cursor) : Bool := c.column = indentation && !c.rest.isEmpty

/-- A place at which a word starts: no blank. -/
def startsWord (c : Cursor) : Bool :=
  match c.here? with
  | some a => !isBlank a
  | none => false

/-- What stands between two lines: the break between them and the number of empty lines after it
decide. -/
def joint (folded : Bool) (lineBreak : Option Char) (words : Bool) (emptyLines : List Char) :
    List Char :=
  if folded && words && lineBreak = some '\n' then (if emptyLines.isEmpty then [' '] else [])
  else lineBreak.toList

/-- The lines of a scalar after empty lines: its text, the break that ends it, the breaks of the
empty lines after it, and the place after them. -/
def lines (folded : Bool) (indentation : Nat) :
    Nat → List Char → Cursor → List Char × Option Char × List Char × Cursor
  | 0, empty, c => ([], none, empty, c)
  | fuel + 1, empty, c =>
    if atLine indentation c then
      let word := startsWord c
      let (line, c) := c.span fun a => !isBreak a
      let (lineBreak, c) := match c.break? with
        | some (b, c) => (some b, c)
        | none => (none, c)
      let (empty', c) := breaks indentation (c.rest.length + 1) c
      if atLine indentation c then
        let between := joint folded lineBreak (word && startsWord c) empty'
        let (more, last, after, c) := lines folded indentation fuel empty' c
        (empty ++ line ++ between ++ more, last, after, c)
      else (empty ++ line, lineBreak, empty', c)
    else ([], none, empty, c)

/-- The text of a scalar whose indicator stands here, inside a collection that starts at a column, if
there is one. -/
def scan (folded : Bool) (inside : Option Nat) (c : Cursor) : Except Fault (List Char × Cursor) := do
  let (chomping, increment, c) := header c.next
  if increment = some 0 ∨ endsMark c.here? = false then .error .broken
  else
    let c ← afterHeader c
    let least := max 1 (inside.elim 0 (· + 1))
    let (empty, indentation, c) := match increment with
      | some n =>
        let (empty, c) := breaks (least + n - 1) (c.rest.length + 1) c
        (empty, least + n - 1, c)
      | none =>
        let (empty, deepest, c) := leading (c.rest.length + 1) 0 c
        (empty, max least deepest, c)
    let (text, last, after, c) := lines folded indentation (c.rest.length + 1) empty c
    return (text ++ (if chomping = .strip then [] else last.toList) ++
      (if chomping = .keep then after else []), c)

end Block

end Assay.Yaml
