/-!
# Glob patterns

A star stands for any text, a question mark for one character, and brackets for one character of a
set, which an exclamation mark negates. A pattern matches a whole text. Matching walks the pattern
from its end and keeps, for every rest of the text, whether the pattern's rest matches it.
-/

namespace Assay.Glob

/-- What a set in brackets lists: single characters and ranges. -/
inductive Member where
  | one (c : Char)
  | range (low high : Char)
deriving DecidableEq, Repr

/-- A part of a pattern. -/
inductive Part where
  | star
  | any
  | literal (c : Char)
  | set (negated : Bool) (members : List Member)
deriving DecidableEq, Repr

namespace Member

/-- Whether a character is listed. -/
def admits (c : Char) : Member → Bool
  | .one d => c == d
  | .range low high => low ≤ c && c ≤ high

end Member

namespace Part

/-- Whether a part other than the star stands for a character. -/
def admits (c : Char) : Part → Bool
  | .star => true
  | .any => true
  | .literal d => c == d
  | .set negated ms => ms.any (Member.admits c) != negated

end Part

/-! ### Sets in brackets -/

/-- The text of a set and the rest of the pattern after its closing bracket. A closing bracket that
stands first, or first after an exclamation mark, belongs to the set. -/
def bracketed (cs : List Char) : Option (List Char × List Char) :=
  let (mark, rest) := match cs with
    | '!' :: r => (['!'], r)
    | r => ([], r)
  let (first, rest) := match rest with
    | ']' :: r => ([']'], r)
    | r => ([], r)
  match rest.dropWhile (· ≠ ']') with
  | [] => none
  | _ :: after => some (mark ++ first ++ rest.takeWhile (· ≠ ']'), after)

/-- Splits a text at the first hyphen at or after a position. -/
def splitAfter (skip : Nat) (cs : List Char) : Option (List Char × List Char) :=
  match (cs.drop skip).dropWhile (· ≠ '-') with
  | [] => none
  | _ :: after => some (cs.take skip ++ (cs.drop skip).takeWhile (· ≠ '-'), after)

/-- Splits the text of a set at the hyphens that make ranges: each has a character on both sides
that belongs to no other range. The budget bounds the number of pieces. -/
def pieces : Nat → Nat → List Char → List (List Char)
  | 0, _, cs => [cs]
  | budget + 1, skip, cs =>
    match splitAfter skip cs with
    | none => [cs]
    | some (piece, after) => piece :: pieces budget 2 after

/-- Appends a hyphen to the last piece when nothing follows the last hyphen. -/
def closeLast : List (List Char) → List (List Char)
  | [] => []
  | [p] => [p]
  | [p, []] => [p ++ ['-']]
  | p :: ps => p :: closeLast ps

/-- Joins pieces at ranges that are empty, from the last to the first: both ends of such a range go
away. -/
def dropEmptyRanges : List (List Char) → List (List Char)
  | [] => []
  | p :: ps =>
    match dropEmptyRanges ps with
    | [] => [p]
    | q :: qs =>
      match p.getLast?, q.head? with
      | some a, some b => if b < a then (p.dropLast ++ q.tail) :: qs else p :: q :: qs
      | _, _ => p :: q :: qs

/-- A character of a set's text: an ordinary one, or a hyphen that makes a range. -/
inductive Token where
  | plain (c : Char)
  | hyphen
deriving DecidableEq, Repr

/-- The pieces as one text, with hyphens between them that make ranges. -/
def tokens : List (List Char) → List Token
  | [] => []
  | [p] => p.map .plain
  | p :: ps => p.map .plain ++ .hyphen :: tokens ps

/-- The members that a text lists; a hyphen without a character before it is one itself. -/
def members : List Token → List Member
  | [] => []
  | .plain a :: .hyphen :: .plain b :: rest => .range a b :: members rest
  | .plain a :: rest => .one a :: members rest
  | .hyphen :: rest => .one '-' :: members rest

/-- The part that the text of a set stands for. -/
def setPart (text : List Char) : Part :=
  let split :=
    if text.contains '-' then
      let skip := if text.head? = some '!' then 2 else 1
      dropEmptyRanges (closeLast (pieces text.length skip text))
    else [text]
  match tokens split with
  | [] => .set false []
  | [.plain '!'] => .any
  | .plain '!' :: rest => .set true (members rest)
  | rest => .set false (members rest)

/-! ### Patterns -/

/-- The parts of a pattern; an opening bracket without a closing one stands for itself. -/
def parse : Nat → List Char → List Part
  | 0, _ => []
  | _, [] => []
  | fuel + 1, '*' :: rest => .star :: parse fuel rest
  | fuel + 1, '?' :: rest => .any :: parse fuel rest
  | fuel + 1, '[' :: rest =>
    match bracketed rest with
    | none => .literal '[' :: parse fuel rest
    | some (text, after) => setPart text :: parse fuel after
  | fuel + 1, c :: rest => .literal c :: parse fuel rest

/-- The parts of a pattern. -/
def ofPattern (pattern : String) : List Part := parse pattern.length pattern.toList

/-! ### Matching -/

/-- Each entry or any later one. -/
def orLater : List Bool → List Bool
  | [] => []
  | b :: bs => (b || bs.any id) :: orLater bs

/-- For every rest of the text, from the whole to the empty one: whether the parts match it. -/
def column (cs : List Char) : List Part → List Bool
  | [] => cs.map (fun _ => false) ++ [true]
  | .star :: ps => orLater (column cs ps)
  | p :: ps => (cs.zip (column cs ps).tail).map (fun e => p.admits e.1 && e.2) ++ [false]

/-- Whether the parts match a whole text. -/
def matchesParts (ps : List Part) (cs : List Char) : Bool := (column cs ps).head?.getD false

/-- Whether a pattern matches a whole text. -/
def «matches» (pattern text : String) : Bool := matchesParts (ofPattern pattern) text.toList

end Assay.Glob
