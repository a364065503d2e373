import Assay.Yaml.Cursor

/-!
# Plain scalars

A scalar without marks. It ends before a comment, before a colon that ends a word, before a mark of
a flow collection that it stands in, and before a line that is indented less than it must be. A line
break between its words is folded as in quoted scalars.
-/

namespace Assay.Yaml.Plain

/-- The length of the run from here on that belongs to one word. -/
def runLength (inFlow : Bool) : List Char → Nat
  | [] => 0
  | a :: rest =>
    if isBlank a || isBreak a then 0
    else if a = ':' && ends (fun b => isBlank b || isBreak b || (inFlow && isFlowMark b)) rest.head?
      then 0
    else if inFlow && (isFlowMark a || a = '?') then 0
    else runLength inFlow rest + 1

/-- The breaks of empty lines, with spaces passed over; nothing if a separator of documents stands at
the start of a line. -/
def breaks : Nat → Cursor → Option (List Char) × Cursor
  | 0, c => (some [], c)
  | fuel + 1, c =>
    if c.here? = some ' ' then breaks fuel c.next
    else
      match c.break? with
      | none => (some [], c)
      | some (b, c) =>
        if c.atSeparator then (none, c)
        else
          let (more, c) := breaks fuel c
          (more.map (b :: ·), c)

/-- What stands between two words: the characters that it is read as, or nothing where the scalar
must end, whether a line was broken, and the place after it. -/
structure Gap where
  text : Option (List Char)
  broken : Bool
  after : Cursor

/-- The gap from here on. -/
def gap (c : Cursor) : Gap :=
  let (spaces, c) := c.span (· = ' ')
  match c.break? with
  | none => ⟨if spaces.isEmpty then none else some spaces, false, c⟩
  | some (b, c) =>
    if c.atSeparator then ⟨none, true, c⟩
    else
      let (more, c) := breaks (c.rest.length + 1) c
      ⟨more.map fun m => (if b ≠ '\n' then [b] else if m.isEmpty then [' '] else []) ++ m, true, c⟩

/-- The words from here on, after the text of a gap: the text, whether the last gap broke a line, and
the place after it. -/
def words (inFlow : Bool) (least : Nat) :
    Nat → List Char → Bool → Cursor → List Char × Bool × Cursor
  | 0, _, broken, c => ([], broken, c)
  | fuel + 1, before, broken, c =>
    let n := if c.here? = some '#' then 0 else runLength inFlow c.rest
    if n = 0 then ([], broken, c)
    else
      let run := before ++ c.rest.take n
      let g := gap (c.advance n)
      match g.text with
      | none => (run, g.broken, g.after)
      | some t =>
        if g.after.here? = some '#' || (!inFlow && g.after.column < least) then
          (run, g.broken, g.after)
        else
          let (more, broken, c) := words inFlow least fuel t g.broken g.after
          (run ++ more, broken, c)

/-- The text of a scalar that starts here, inside a collection that starts at a column, if there is
one, and whether a line was broken after it. -/
def scan (inFlow : Bool) (inside : Option Nat) (c : Cursor) : List Char × Bool × Cursor :=
  words inFlow (inside.elim 0 (· + 1)) (c.rest.length + 1) [] false c

end Assay.Yaml.Plain
