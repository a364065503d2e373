import Assay.Text.Digit
import Assay.Text.Utf8
import Assay.Yaml.Cursor
import Assay.Yaml.Fault
import Assay.Yaml.Token.Basic

/-!
# Names, tags and directives

The tokens that are made of names: anchors and aliases, tags with their handles, and directives,
which have a line of their own.
-/

namespace Assay.Yaml.Property

/-- A name from here on, and the place after it. -/
def name (c : Cursor) : Except Fault (String × Cursor) :=
  match c.span isNameChar with
  | ([], _) => .error .broken
  | (cs, c) => .ok (String.ofList cs, c)

/-- The name of an anchor or alias whose indicator stands here. -/
def anchorName (c : Cursor) : Except Fault (String × Cursor) := do
  let (n, c) ← name c.next
  let closes := ends (fun a => isBlank a || isBreak a || "?:,]\x7d%@`".toList.contains a) c.here?
  if closes then return (n, c) else .error .broken

/-- The bytes that percent signs with two hexadecimal digits name. -/
def escapedBytes : Nat → Cursor → Except Fault (List UInt8 × Cursor)
  | 0, c => .ok ([], c)
  | fuel + 1, c =>
    match c.rest with
    | '%' :: a :: b :: _ =>
      match Text.hexDigit? a, Text.hexDigit? b with
      | some m, some n => do
        let (more, c) ← escapedBytes fuel (c.advance 3)
        return (UInt8.ofNat (16 * m + n) :: more, c)
      | _, _ => .error .broken
    | '%' :: _ => .error .broken
    | _ => .ok ([], c)

/-- The characters of a tag from here on. -/
def tagChars : Nat → Cursor → Except Fault (List Char × Cursor)
  | 0, c => .ok ([], c)
  | fuel + 1, c =>
    match c.here? with
    | none => .ok ([], c)
    | some a =>
      if a = '%' then do
        let (bytes, c) ← escapedBytes (c.rest.length + 1) c
        match Text.Utf8.decode bytes with
        | .error _ => .error .broken
        | .ok cs =>
          let (more, c) ← tagChars fuel c
          return (cs ++ more, c)
      else if isTagChar a then do
        let (more, c) ← tagChars fuel c.next
        return (a :: more, c)
      else .ok ([], c)

/-- The text of a tag from here on, which must not be empty. -/
def tagText (c : Cursor) : Except Fault (String × Cursor) := do
  let (cs, after) ← tagChars (c.rest.length + 1) c
  if after.index = c.index then .error .broken else return (String.ofList cs, after)

/-- A handle from here on: an exclamation mark, alone before a space, or with another one after a
name that may be empty. -/
def handle (c : Cursor) : Except Fault (String × Cursor) :=
  match c.rest with
  | '!' :: rest =>
    if rest.head? = some ' ' then .ok ("!", c.next)
    else
      let run := rest.takeWhile isNameChar
      if rest[run.length]? = some '!' then
        .ok (String.ofList ('!' :: run ++ ['!']), c.advance (run.length + 2))
      else .error .broken
  | _ => .error .broken

/-- The characters of a tag up to a second exclamation mark, if there is one before the tag ends. -/
def hasHandle (rest : List Char) : Bool :=
  (rest.dropWhile fun a => !(a = '!' || a = ' ' || isBreak a)).head? = some '!'

/-- The handle and the text of a tag whose indicator stands here. -/
def tag (c : Cursor) : Except Fault (Token × Cursor) := do
  let (t, c) ← match c.at? 1 with
    | some '<' => do
      let (s, c) ← tagText (c.advance 2)
      if c.here? = some '>' then pure (Token.tag none s, c.next) else .error .broken
    | second =>
      if endsWord second then pure (Token.tag none "!", c.next)
      else do
        let (h, c) ← if hasHandle c.next.rest then handle c else pure ("!", c.next)
        let (s, c) ← tagText c
        pure (Token.tag (some h) s, c)
  if endsMark c.here? then return (t, c) else .error .broken

/-- A decimal number from here on. -/
def number (c : Cursor) : Except Fault (Nat × Cursor) :=
  match c.span Text.isDigit with
  | ([], _) => .error .broken
  | (ds, c) => .ok (ds.foldl (fun n d => 10 * n + (d.toNat - 48)) 0, c)

/-- The place after the rest of a directive's line, which may hold a comment. -/
def afterDirective (c : Cursor) : Except Fault Cursor :=
  let c := (c.skipWhile (· = ' ')).skipComment
  match c.rest, c.break? with
  | [], _ => .ok c
  | _, some (_, c) => .ok c
  | _, none => .error .broken

/-- The directive whose indicator stands here. -/
def directive (c : Cursor) : Except Fault (Token × Cursor) := do
  let (n, c) ← name c.next
  if !endsMark c.here? then .error .broken
  else
    let (d, c) ←
      if n = "YAML" then do
        let (major, c) ← number (c.skipWhile (· = ' '))
        if c.here? ≠ some '.' then .error .broken
        else
          let (_, c) ← number c.next
          if endsMark c.here? then pure (Directive.version major, c) else .error .broken
      else if n = "TAG" then do
        let (h, c) ← handle (c.skipWhile (· = ' '))
        if c.here? ≠ some ' ' then .error .broken
        else
          let (s, c) ← tagText (c.skipWhile (· = ' '))
          if endsMark c.here? then pure (Directive.handle h s, c) else .error .broken
      else pure (Directive.other, c.skipWhile fun a => !isBreak a)
    return (.directive d, ← afterDirective c)

end Assay.Yaml.Property
