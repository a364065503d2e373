import Assay.Text.CodeUnit
import Assay.Text.Digit
import Assay.Yaml.Cursor
import Assay.Yaml.Fault

/-!
# Quoted scalars

A scalar between apostrophes, in which two of them stand for one, or between quotation marks, in
which a backslash starts an escape. A line break between words is folded into a space, and further
ones are kept.
-/

namespace Assay.Yaml

open Assay.Text

/-- The two ways to quote. -/
inductive Quotation where
  | single
  | double
deriving DecidableEq, Repr

/-- The mark that opens and closes. -/
def Quotation.mark : Quotation → Char
  | .single => '\''
  | .double => '"'

namespace Quoted

/-- The character of a one-letter escape. -/
def escape? : Char → Option Char
  | '0' => some (Char.ofNat 0)
  | 'a' => some (Char.ofNat 7)
  | 'b' => some (Char.ofNat 8)
  | 't' => some '\t'
  | '\t' => some '\t'
  | 'n' => some '\n'
  | 'v' => some (Char.ofNat 11)
  | 'f' => some (Char.ofNat 12)
  | 'r' => some '\r'
  | 'e' => some (Char.ofNat 27)
  | ' ' => some ' '
  | '"' => some '"'
  | '\\' => some '\\'
  | '/' => some '/'
  | 'N' => some (Char.ofNat 0x85)
  | '_' => some (Char.ofNat 0xA0)
  | 'L' => some (Char.ofNat 0x2028)
  | 'P' => some (Char.ofNat 0x2029)
  | _ => none

/-- The number of hexadecimal digits after a letter. -/
def escapeWidth? : Char → Option Nat
  | 'x' => some 2
  | 'u' => some 4
  | 'U' => some 8
  | _ => none

/-- The number of hexadecimal digits, of which there must be exactly as many. -/
def hexNumber? (width : Nat) (cs : List Char) : Option Nat :=
  let ds := cs.take width
  if ds.length < width then none
  else ds.foldl (fun n c => do return (← n) * 16 + (← hexDigit? c)) (some 0)

/-- The low surrogate that an escape here names. -/
def lowUnit? : List Char → Option Nat
  | '\\' :: 'u' :: rest => (hexNumber? 4 rest).filter isLow
  | _ => none

/-- The line breaks from here on, with blanks around them passed over. A separator of documents must
not stand at the start of a line. -/
def breaks : Nat → Cursor → Except Fault (List Char × Cursor)
  | 0, c => .ok ([], c)
  | fuel + 1, c =>
    if c.atSeparator then .error .broken
    else
      let c := c.skipWhile isBlank
      match c.break? with
      | none => .ok ([], c)
      | some (b, c) => do
        let (more, c) ← breaks fuel c
        return (b :: more, c)

/-- The blanks before the next word: those of one line are kept, a break alone is a space, and
further breaks are kept. -/
def gap (c : Cursor) : Except Fault (List Char × Cursor) :=
  let (blanks, c) := c.span isBlank
  match c.rest, c.break? with
  | [], _ => .error .broken
  | _, none => .ok (blanks, c)
  | _, some (b, c) => do
    let (more, c) ← breaks (c.rest.length + 1) c
    return ((if b ≠ '\n' then [b] else if more.isEmpty then [' '] else []) ++ more, c)

/-- The characters of an escape, after its backslash. A break is escaped together with the blanks
around it. -/
def escape (c : Cursor) : Except Fault (List Char × Cursor) :=
  match c.rest with
  | [] => .error .broken
  | a :: rest =>
    match escape? a, escapeWidth? a, c.break? with
    | some e, _, _ => .ok ([e], c.next)
    | none, some width, _ =>
      match hexNumber? width rest with
      | none => .error .broken
      | some n =>
        let c := c.advance (width + 1)
        if isHigh n then
          match lowUnit? c.rest with
          | some low => .ok ([pairChar n low], c.advance 6)
          | none => .ok ([unitChar n], c)
        else if n < 0x110000 then .ok ([unitChar n], c)
        else if n < 0x80000000 then .error .noCharacter
        else .error .hugeCharacter
    | none, none, some (_, c) => breaks (c.rest.length + 1) c
    | none, none, none => .error .broken

/-- The characters of a word: up to a blank, a break, or the closing mark. -/
def word (q : Quotation) : Nat → Cursor → Except Fault (List Char × Cursor)
  | 0, c => .ok ([], c)
  | fuel + 1, c =>
    match c.rest with
    | [] => .ok ([], c)
    | a :: rest =>
      if isBlank a || isBreak a then .ok ([], c)
      else if a = q.mark then
        if q = .single ∧ rest.head? = some '\'' then do
          let (more, c) ← word q fuel (c.advance 2)
          return ('\'' :: more, c)
        else .ok ([], c)
      else if q = .double ∧ a = '\\' then do
        let (e, c) ← escape c.next
        let (more, c) ← word q fuel c
        return (e ++ more, c)
      else do
        let (more, c) ← word q fuel c.next
        return (a :: more, c)

/-- The words and gaps up to the closing mark. -/
def body (q : Quotation) : Nat → Cursor → Except Fault (List Char × Cursor)
  | 0, _ => .error .broken
  | fuel + 1, c => do
    let (w, c) ← word q (c.rest.length + 1) c
    if c.here? = some q.mark then return (w, c.next)
    else
      let (g, c) ← gap c
      let (more, c) ← body q fuel c
      return (w ++ g ++ more, c)

/-- The text of a scalar whose opening mark stands here. -/
def scan (q : Quotation) (c : Cursor) : Except Fault (List Char × Cursor) :=
  body q (c.rest.length + 1) c.next

end Quoted

end Assay.Yaml
