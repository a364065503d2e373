import Assay.Yaml.Scalar.Block
import Assay.Yaml.Scalar.Plain
import Assay.Yaml.Scalar.Quoted
import Assay.Yaml.Token.Property

/-!
# Tokens of a text

The scanner goes through a text token by token. It keeps the columns of the block collections that
are open, the number of flow collections around it, and the places at which a key may have started:
only a later colon shows that something is a key, and the token of the key is then put before it.
A fault comes with the tokens before it that no colon can change any more, so that a grammar which
refuses one of those never sees the fault.
-/

namespace Assay.Yaml

/-- A place at which a key may have started: inside how many flow collections, after how many tokens,
and whether a key must start there. -/
structure KeyPlace where
  level : Nat
  number : Nat
  required : Bool
  index : Nat
  line : Nat
  column : Nat
deriving DecidableEq, Repr

/-- A scanner in a text: the tokens so far with the latest first, and what it keeps. -/
structure Scanner where
  cursor : Cursor
  tokens : List Token
  count : Nat
  columns : List Nat
  level : Nat
  keyAllowed : Bool
  places : List KeyPlace

namespace Scanner

/-- A scanner at the start of a text. -/
def start (cs : List Char) : Scanner := ⟨.start cs, [], 0, [], 0, true, []⟩

/-- Appends a token. -/
def push (t : Token) (s : Scanner) : Scanner :=
  { s with tokens := t :: s.tokens, count := s.count + 1 }

/-- Puts a token before the last ones. -/
def insertBack (distance : Nat) (t : Token) (s : Scanner) : Scanner :=
  { s with
    tokens := s.tokens.take distance ++ t :: s.tokens.drop distance
    count := s.count + 1 }

/-- The place after blanks before a token and comments, and whether a line was broken. -/
def toToken : Nat → Bool → Cursor → Bool × Cursor
  | 0, broken, c => (broken, c)
  | fuel + 1, broken, c =>
    let c := (c.skipWhile (· = ' ')).skipComment
    match c.break? with
    | none => (broken, c)
    | some (_, c) => toToken fuel true c

/-- Passes blanks and comments; after a broken line outside flow collections a key may start. -/
def skipBlanks (s : Scanner) : Scanner :=
  let c := if s.cursor.index = 0 && s.cursor.here? = some byteOrderMark then s.cursor.next else s.cursor
  let (broken, c) := toToken (c.rest.length + 1) false c
  { s with cursor := c, keyAllowed := s.keyAllowed || (broken && s.level = 0) }

/-- Drops the places that a key cannot reach from here: a key is on one line and not longer than
1024 characters. A required key must be reached. -/
def dropStale (s : Scanner) : Except Fault Scanner :=
  let isStale (p : KeyPlace) := p.line ≠ s.cursor.line || s.cursor.index - p.index > 1024
  if s.places.any fun p => isStale p && p.required then .error .broken
  else .ok { s with places := s.places.filter fun p => !isStale p }

/-- Drops the place on the current level, where no required key may wait. -/
def dropPlace (s : Scanner) : Except Fault Scanner :=
  if s.places.any fun p => p.level = s.level && p.required then .error .broken
  else .ok { s with places := s.places.filter fun p => p.level ≠ s.level }

/-- Notes that a key may start here. -/
def savePlace (s : Scanner) : Except Fault Scanner :=
  if s.keyAllowed then do
    let c := s.cursor
    let required := s.level = 0 && s.columns.head? = some c.column
    let s ← s.dropPlace
    return { s with places := ⟨s.level, s.count, required, c.index, c.line, c.column⟩ :: s.places }
  else .ok s

/-- Closes the block collections that start right of a column; flow collections do not care. -/
def closeTo (column : Option Nat) (s : Scanner) : Scanner :=
  if s.level > 0 then s
  else
    let closed := s.columns.takeWhile fun k => column.elim true (· < k)
    { s with
      columns := s.columns.drop closed.length
      tokens := closed.map (fun _ => Token.blockEnd) ++ s.tokens
      count := s.count + closed.length }

/-- Whether a collection at a column is deeper than all that are open. -/
def isDeeper (column : Nat) (s : Scanner) : Bool :=
  match s.columns.head? with
  | none => true
  | some k => k < column

/-- Opens a block collection here, if it is deeper. -/
def openBlock (t : Token) (s : Scanner) : Scanner :=
  if s.isDeeper s.cursor.column then
    { s.push t with columns := s.cursor.column :: s.columns }
  else s

/-- Passes an indicator of some characters and appends its token. -/
def mark (n : Nat) (t : Token) (s : Scanner) : Scanner :=
  { s.push t with cursor := s.cursor.advance n }

/-- A separator of documents. -/
def separator (t : Token) (s : Scanner) : Except Fault Scanner := do
  let s ← (s.closeTo none).dropPlace
  return { s with keyAllowed := false }.mark 3 t

/-- A directive. -/
def directive (s : Scanner) : Except Fault Scanner := do
  let s ← (s.closeTo none).dropPlace
  let (t, c) ← Property.directive s.cursor
  return { s.push t with cursor := c, keyAllowed := false }

/-- The start of a flow collection, which may be a key. -/
def flowStart (t : Token) (s : Scanner) : Except Fault Scanner := do
  let s ← s.savePlace
  return { s with level := s.level + 1, keyAllowed := true }.mark 1 t

/-- The end of a flow collection, of which one must be open. -/
def flowEnd (t : Token) (s : Scanner) : Except Fault Scanner := do
  let s ← s.dropPlace
  if s.level = 0 then .error .broken
  else return { s with level := s.level - 1, keyAllowed := false }.mark 1 t

/-- The divider of a flow collection. -/
def flowEntry (s : Scanner) : Except Fault Scanner := do
  let s ← { s with keyAllowed := true }.dropPlace
  return s.mark 1 .flowEntry

/-- The hyphen of a block sequence. -/
def blockEntry (s : Scanner) : Except Fault Scanner := do
  let s ←
    if s.level > 0 then pure s
    else if s.keyAllowed then pure (s.openBlock .blockSequenceStart)
    else .error .broken
  let s ← { s with keyAllowed := true }.dropPlace
  return s.mark 1 .blockEntry

/-- The question mark of a key. -/
def keyMark (s : Scanner) : Except Fault Scanner := do
  let s ←
    if s.level > 0 then pure s
    else if s.keyAllowed then pure (s.openBlock .blockMappingStart)
    else .error .broken
  let s ← { s with keyAllowed := s.level = 0 }.dropPlace
  return s.mark 1 .key

/-- The colon of a value: if a key may have started on this level, it did. -/
def valueMark (s : Scanner) : Except Fault Scanner :=
  match s.places.find? fun p => p.level = s.level with
  | some p =>
    let distance := s.count - p.number
    let s := { s with places := s.places.filter fun p => p.level ≠ s.level }
    let opens := s.level = 0 && s.isDeeper p.column
    let s := s.insertBack distance .key
    let s :=
      if opens then
        { s.insertBack (distance + 1) .blockMappingStart with columns := p.column :: s.columns }
      else s
    .ok ({ s with keyAllowed := false }.mark 1 .value)
  | none => do
    let s ←
      if s.level > 0 then pure s
      else if s.keyAllowed then pure (s.openBlock .blockMappingStart)
      else .error .broken
    let s ← { s with keyAllowed := s.level = 0 }.dropPlace
    return s.mark 1 .value

/-- A property of a node, which may start a key. -/
def property (scan : Cursor → Except Fault (Token × Cursor)) (s : Scanner) : Except Fault Scanner := do
  let s ← s.savePlace
  let (t, c) ← scan s.cursor
  return { s.push t with cursor := c, keyAllowed := false }

/-- An anchor or alias. -/
def named (make : String → Token) (s : Scanner) : Except Fault Scanner :=
  s.property fun c => do
    let (n, c) ← Property.anchorName c
    return (make n, c)

/-- A block scalar, after which a key may start. -/
def block (folded : Bool) (s : Scanner) : Except Fault Scanner := do
  let s ← s.dropPlace
  let (text, c) ← Block.scan folded s.columns.head? s.cursor
  return { s.push (.scalar false (String.ofList text)) with cursor := c, keyAllowed := true }

/-- A quoted scalar, which may be a key. -/
def quoted (q : Quotation) (s : Scanner) : Except Fault Scanner :=
  s.property fun c => do
    let (text, c) ← Quoted.scan q c
    return (.scalar false (String.ofList text), c)

/-- A plain scalar, which may be a key; after a broken line a key may start. -/
def plain (s : Scanner) : Except Fault Scanner := do
  let s ← s.savePlace
  let (text, broken, c) := Plain.scan (s.level > 0) s.columns.head? s.cursor
  return { s.push (.scalar true (String.ofList text)) with cursor := c, keyAllowed := broken }

/-- Whether a plain scalar starts with a character, for what follows it. -/
def startsPlain (inFlow : Bool) (a : Char) (second : Option Char) : Bool :=
  !(isBlank a || isBreak a || isFlowMark a || "-?:#&*!|>'\"%@`".toList.contains a) ||
    (!endsWord second && (a = '-' || (!inFlow && (a = '?' || a = ':'))))

/-- The next token, which starts with a character. -/
def token (a : Char) (s : Scanner) : Except Fault Scanner :=
  let c := s.cursor
  let inFlow := s.level > 0
  let alone := endsWord (c.at? 1)
  if a = '%' && c.column = 0 then s.directive
  else if a = '-' && c.column = 0 && c.atSeparator then s.separator .documentStart
  else if a = '.' && c.column = 0 && c.atSeparator then s.separator .documentEnd
  else if a = '[' then s.flowStart .flowSequenceStart
  else if a = '\x7b' then s.flowStart .flowMappingStart
  else if a = ']' then s.flowEnd .flowSequenceEnd
  else if a = '\x7d' then s.flowEnd .flowMappingEnd
  else if a = ',' then s.flowEntry
  else if a = '-' && alone then s.blockEntry
  else if a = '?' && (inFlow || alone) then s.keyMark
  else if a = ':' && (inFlow || alone) then s.valueMark
  else if a = '*' then s.named .alias
  else if a = '&' then s.named .anchor
  else if a = '!' then s.property Property.tag
  else if a = '|' && !inFlow then s.block false
  else if a = '>' && !inFlow then s.block true
  else if a = '\'' then s.quoted .single
  else if a = '"' then s.quoted .double
  else if startsPlain inFlow a (c.at? 1) then s.plain
  else .error .broken

/-- The tokens that no later colon changes: those before the first place at which a key may have
started. -/
def settled (s : Scanner) : List Token :=
  let places := (s.dropStale.toOption.getD s).places
  s.tokens.reverse.take (places.foldl (fun n p => min n p.number) s.count)

/-- The scanner after the next token, and whether the text has ended instead, where every block
collection closes. -/
def step (s : Scanner) : Except Fault (Scanner × Bool) := do
  let s ← s.skipBlanks.dropStale
  let s := s.closeTo (some s.cursor.column)
  match s.cursor.here? with
  | none => return (← (s.closeTo none).dropPlace, true)
  | some a => return (← s.token a, false)

/-- All tokens up to the end of the text or a fault. -/
def run : Nat → Scanner → Tokens
  | 0, s => ⟨s.settled, some .broken⟩
  | fuel + 1, s =>
    match s.step with
    | .error f => ⟨s.settled, some f⟩
    | .ok (s, true) => ⟨s.tokens.reverse, none⟩
    | .ok (s, false) => run fuel s

end Scanner

/-- The tokens of a text. -/
def Tokens.ofChars (cs : List Char) : Tokens :=
  if cs.all isAllowed then (Scanner.start cs).run (cs.length + 1) else ⟨[], some .broken⟩

end Assay.Yaml
