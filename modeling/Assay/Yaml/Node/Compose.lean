import Assay.Yaml.Node.Basic
import Assay.Yaml.Token.Basic

/-!
# Nodes of tokens

The grammar of documents over tokens. A node may have an anchor and a tag; an alias stands for the
node of an anchor before it. A node that holds an alias of its own anchor has no end, and is noted as
such. A text holds at most one document.
-/

namespace Assay.Yaml

/-- The tokens that are left and the fault after them, if there is one, the anchors so far with their
nodes, the handles of tags, and whether a node holds itself. -/
structure Supply where
  tokens : List Token
  fault : Option Fault
  anchors : List (String × Option Node)
  handles : List (String × String)
  endless : Bool := false

/-- A step of the grammar. -/
abbrev Compose := StateT Supply (Except Fault)

namespace Compose

/-- The handles that every document knows. -/
def commonHandles : List (String × String) := [("!", "!"), ("!!", Tag.core)]

/-- The next token. The fault after the tokens counts only where a token is asked for. -/
def peek : Compose (Option Token) := do
  let s ← get
  match s.tokens, s.fault with
  | [], some f => throw f
  | ts, _ => return ts.head?

/-- Passes a token. -/
def skip : Compose Unit := modify fun s => { s with tokens := s.tokens.tail }

/-- A text that is not well formed. -/
def broken {α : Type} : Compose α := throw .broken

/-- The node of an alias. In the node of its own anchor an empty sequence stands for it. -/
def aliased (name : String) : Compose Node := do
  match ((← get).anchors.find? fun a => a.1 == name).map Prod.snd with
  | some (some n) => return n
  | some none => do
    modify fun s => { s with endless := true }
    return .sequence .seq []
  | none => broken

/-- Notes an anchor before its node is complete; no other one may have its name. -/
def openAnchor (anchor : Option String) : Compose Unit := do
  match anchor with
  | none => return
  | some a =>
    let s ← get
    if s.anchors.any fun e => e.1 == a then broken
    else set { s with anchors := (a, none) :: s.anchors }

/-- Notes the node of an anchor. -/
def closeAnchor (anchor : Option String) (n : Node) : Compose Unit :=
  match anchor with
  | none => return
  | some a => modify fun s => { s with anchors := (a, some n) :: s.anchors }

/-- The full name of a tag. -/
def tagName : Option String × String → Compose String
  | (none, suffix) => return suffix
  | (some h, suffix) => do
    match ((← get).handles.find? fun e => e.1 == h).map Prod.snd with
    | some start => return start ++ suffix
    | none => broken

/-- The handle and the text of a tag, if one is next. -/
def tagHere : Compose (Option (Option String × String)) := do
  match ← peek with
  | some (.tag h s) => do
    skip
    return some (h, s)
  | _ => return none

/-- An anchor, if one is next. -/
def anchorHere : Compose (Option String) := do
  match ← peek with
  | some (.anchor a) => do
    skip
    return some a
  | _ => return none

/-- The anchor and the tag of a node, in either order. -/
def properties : Compose (Option String × Option String) := do
  let (anchor, tag) ← match ← anchorHere with
    | some a => pure (some a, ← tagHere)
    | none =>
      match ← tagHere with
      | some t => pure (← anchorHere, some t)
      | none => pure (none, none)
  return (anchor, ← tag.mapM tagName)

/-- The tag of a collection: a lone exclamation mark says nothing. -/
def collectionTag (usual : Tag) : Option String → Tag
  | none => usual
  | some t => if t = "!" then usual else .ofName t

/-- The tag of a scalar: a lone exclamation mark has it read as if it were plain. -/
def scalarTag (plain : Bool) (text : String) : Option String → Tag
  | none => if plain then .ofPlain text else .str
  | some t => if t = "!" then .ofPlain text else .ofName t

/-- Where a node stands: in a block, where a sequence may also stand at the column of its key, or
in a flow collection. -/
inductive Position where
  | block
  | blockValue
  | flow
deriving DecidableEq, Repr

/-- Whether a value is left out before a token of a block mapping. -/
def isBlockGap : Option Token → Bool
  | some .key => true
  | some .value => true
  | some .blockEnd => true
  | _ => false

/-- Whether a part is left out before a token of a flow collection. -/
def isFlowGap (closing : Token) (t : Option Token) : Bool :=
  t = some .value || t = some .flowEntry || t = some closing

mutual

/-- A node. -/
def node : Nat → Position → Compose Node
  | 0, _ => broken
  | fuel + 1, p => do
    match ← peek with
    | some (.alias name) => do
      skip
      aliased name
    | _ =>
      let (anchor, tag) ← properties
      let _ ← peek
      openAnchor anchor
      let n ← content fuel p anchor.isSome tag
      closeAnchor anchor n
      return n

/-- The content of a node after its properties; a node that has any may be empty. -/
def content : Nat → Position → Bool → Option String → Compose Node
  | 0, _, _, _ => broken
  | fuel + 1, p, hasAnchor, tag => do
    match ← peek, p with
    | some (.scalar plain text), _ => do
      skip
      return .scalar (scalarTag plain text tag) text
    | some .flowSequenceStart, _ => do
      skip
      return .sequence (collectionTag .seq tag) (← flowItems fuel true)
    | some .flowMappingStart, _ => do
      skip
      return .mapping (collectionTag .map tag) (← flowEntries fuel true)
    | some .blockEntry, .blockValue =>
      return .sequence (collectionTag .seq tag) (← plainItems fuel)
    | some .blockSequenceStart, .block | some .blockSequenceStart, .blockValue => do
      skip
      return .sequence (collectionTag .seq tag) (← blockItems fuel)
    | some .blockMappingStart, .block | some .blockMappingStart, .blockValue => do
      skip
      return .mapping (collectionTag .map tag) (← blockEntries fuel)
    | _, _ =>
      if hasAnchor || tag.isSome then return .scalar (scalarTag true "" tag) "" else broken

/-- The items of a block sequence up to its end. -/
def blockItems : Nat → Compose (List Node)
  | 0 => broken
  | fuel + 1 => do
    match ← peek with
    | some .blockEntry => do
      skip
      let next ← peek
      let n ←
        if next = some .blockEntry ∨ next = some .blockEnd then pure Node.empty
        else node fuel .block
      return n :: (← blockItems fuel)
    | some .blockEnd => do
      skip
      return []
    | _ => broken

/-- The items of a sequence at the column of its key, which ends where no further item starts. -/
def plainItems : Nat → Compose (List Node)
  | 0 => broken
  | fuel + 1 => do
    match ← peek with
    | some .blockEntry => do
      skip
      let next ← peek
      let n ←
        if next = some .blockEntry ∨ isBlockGap next then pure Node.empty else node fuel .block
      return n :: (← plainItems fuel)
    | _ => return []

/-- A key or a value of a block mapping, which may be left out. -/
def blockPart : Nat → Compose Node
  | 0 => broken
  | fuel + 1 => do
    if isBlockGap (← peek) then return Node.empty else node fuel .blockValue

/-- The entries of a block mapping up to its end. -/
def blockEntries : Nat → Compose (List (Node × Node))
  | 0 => broken
  | fuel + 1 => do
    match ← peek with
    | some .key => do
      skip
      let k ← blockPart fuel
      let v ← match ← peek with
        | some .value => do
          skip
          blockPart fuel
        | _ => pure Node.empty
      return (k, v) :: (← blockEntries fuel)
    | some .blockEnd => do
      skip
      return []
    | _ => broken

/-- A key or a value in a flow collection, which may be left out. -/
def flowPart : Nat → Token → Compose Node
  | 0, _ => broken
  | fuel + 1, closing => do
    if isFlowGap closing (← peek) then return Node.empty else node fuel .flow

/-- The value after a key in a flow collection; without a colon it is left out. A colon right after
another one is no value. -/
def flowValue : Nat → Token → Compose Node
  | 0, _ => broken
  | fuel + 1, closing => do
    match ← peek with
    | some .value => do
      skip
      if (← peek) = some .value then broken else flowPart fuel closing
    | _ => return Node.empty

/-- The items of a flow sequence up to its end; a key makes an item that is a mapping of one
entry. -/
def flowItems : Nat → Bool → Compose (List Node)
  | 0, _ => broken
  | fuel + 1, first => do
    if (← peek) = some .flowSequenceEnd then
      skip
      return []
    else
      unless first do
        if (← peek) = some .flowEntry then skip else broken
      match ← peek with
      | some .flowSequenceEnd => do
        skip
        return []
      | some .key => do
        skip
        let k ← flowPart fuel .flowSequenceEnd
        let v ← flowValue fuel .flowSequenceEnd
        return .mapping .map [(k, v)] :: (← flowItems fuel false)
      | _ => do
        let n ← node fuel .flow
        return n :: (← flowItems fuel false)

/-- The entries of a flow mapping up to its end; an item without a colon is a key. -/
def flowEntries : Nat → Bool → Compose (List (Node × Node))
  | 0, _ => broken
  | fuel + 1, first => do
    if (← peek) = some .flowMappingEnd then
      skip
      return []
    else
      unless first do
        if (← peek) = some .flowEntry then skip else broken
      match ← peek with
      | some .flowMappingEnd => do
        skip
        return []
      | some .key => do
        skip
        let k ← flowPart fuel .flowMappingEnd
        let v ← flowValue fuel .flowMappingEnd
        return (k, v) :: (← flowEntries fuel false)
      | _ => do
        let n ← node fuel .flow
        return (n, Node.empty) :: (← flowEntries fuel false)

end

/-- The directives before a document, with whether a version has been seen. -/
def directives : List Token → Bool → List (String × String) → Except Fault (List (String × String) × List Token)
  | .directive (.version major) :: ts, seen, hs =>
    if seen || major ≠ 1 then .error .broken else directives ts true hs
  | .directive (.handle h s) :: ts, seen, hs =>
    if hs.any fun e => e.1 == h then .error .broken else directives ts seen ((h, s) :: hs)
  | .directive .other :: ts, seen, hs => directives ts seen hs
  | ts, _, hs => .ok (hs, ts)

/-- Whether an explicit document is empty before a token. -/
def isDocumentGap : Option Token → Bool
  | none => true
  | some (.directive _) => true
  | some .documentStart => true
  | some .documentEnd => true
  | _ => false

/-- Passes the directives before a document. -/
def passDirectives : Compose Unit := do
  let s ← get
  let (hs, ts) ← directives s.tokens false []
  set { s with tokens := ts, handles := hs ++ commonHandles }

/-- The end of the text after its document; another document is refused after its directives. -/
def ending : Compose Unit := do
  modify fun s => { s with tokens := s.tokens.dropWhile (· = .documentEnd) }
  if (← peek).isSome then
    passDirectives
    let _ ← peek
    broken

/-- The only document of a text, after which only its end may stand; a text may hold none. -/
def document (fuel : Nat) : Compose (Option Node) := do
  match ← peek with
  | none => return none
  | some t =>
    let isExplicit := match t with
      | .directive _ => true
      | .documentStart => true
      | _ => false
    if isExplicit then
      passDirectives
      match ← peek with
      | some .documentStart => skip
      | _ => broken
    let n ← if isExplicit && isDocumentGap (← peek) then pure Node.empty else node fuel .block
    ending
    return some n

end Compose

/-- The document that tokens make, and whether it holds itself. -/
def Node.ofTokens (ts : Tokens) : Except Fault (Option Node × Bool) := do
  let (n, rest) ← (Compose.document (4 * ts.list.length + 8)).run
    { tokens := ts.list, fault := ts.fault, anchors := [], handles := Compose.commonHandles }
  return (n, rest.endless)

end Assay.Yaml
