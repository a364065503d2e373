import Assay.Json.Writer
import Assay.Value.Literal

/-!
# Values as JSON trees

Three ways from a value to a tree. The canonical form refuses what JSON cannot say and writes an
integral float as the integer it is. The displayed form shows every value, by its literal where
nothing else fits. The reported form is a value that JSON can say.
-/

namespace Assay.Value

variable {τ χ : Type}

/-! ### The strict form -/

/-- A double as integer if it is one. -/
def collapsedDouble (x : Double) : Value τ :=
  match x.toInt? with
  | some i => .int i
  | none => .float x

mutual

/-- The value with integral floats as integers, sequences as lists and mappings as ordinary ones. -/
def collapsed : Value τ → Value τ
  | .float x => collapsedDouble x
  | .scalar .double (.float x) =>
    match x.toInt? with
    | some i => .int i
    | none => .scalar .double (.float x)
  | .list xs => .list (collapsedAll xs)
  | .tuple xs => .list (collapsedAll xs)
  | .map _ es => .dict (collapsedEntries es)
  | v => v

/-- A sequence with each item collapsed. -/
def collapsedAll : List (Value τ) → List (Value τ)
  | [] => []
  | x :: xs => collapsed x :: collapsedAll xs

/-- Entries with each value collapsed. -/
def collapsedEntries : List (Value τ × Value τ) → List (Value τ × Value τ)
  | [] => []
  | (k, v) :: es => (k, collapsed v) :: collapsedEntries es

end

theorem collapsedAll_eq_map (xs : List (Value τ)) : collapsedAll xs = xs.map collapsed := by
  induction xs with
  | nil => rfl
  | cons x xs ih => simp [collapsedAll, ih]

variable [Texts τ χ]

/-- The spelling of a key as member name. -/
def keyName (key : Value τ) : Except Fault τ :=
  match key.unwrapped with
  | .str s => .ok s
  | .bool b => .ok (Texts.ofString (if b then "true" else "false"))
  | .null => .ok (Texts.ofString "null")
  | .int i => (integerText i).map Texts.ofString
  | .float x => .ok (Texts.ofString (Layout.json.text x))
  | k => .error (.badKey k.qualifiedName)

theorem keyName_str (s : τ) : keyName (.str s) = .ok s := rfl

mutual

/-- The tree of a value that JSON can say; names of members may repeat where keys are spelled
alike. -/
def toJson : Value τ → Except Fault (Json τ)
  | .null => .ok .null
  | .bool b => .ok (.bool b)
  | .int i => (integerText i).map fun _ => .int i
  | .float x => .ok (.float x.unmarked)
  | .str s => .ok (.str s)
  | .list xs => (toJsonAll xs).map .arr
  | .tuple xs => (toJsonAll xs).map .arr
  | .map false es => (toJsonMembers es).map .obj
  | .scalar .double (.float x) => .ok (.float x.unmarked)
  | .scalar .text (.str s) => .ok (.str s)
  | v => .error (.notWritable v.className)

/-- The trees of a sequence. -/
def toJsonAll : List (Value τ) → Except Fault (List (Json τ))
  | [] => .ok []
  | x :: xs => do
    let j ← toJson x
    return j :: (← toJsonAll xs)

/-- The members of a mapping. -/
def toJsonMembers : List (Value τ × Value τ) → Except Fault (List (τ × Json τ))
  | [] => .ok []
  | (k, v) :: es => do
    let name ← keyName k
    let j ← toJson v
    return (name, j) :: (← toJsonMembers es)

end

/-- The canonical text of a value. -/
def canonical [Letter χ] (v : Value τ) : Except Fault (List χ) :=
  v.collapsed.toJson.map (Json.write .compact 0)

/-! ### The displayed form -/

/-- Puts a member under a name: a present name keeps its place, a new one goes last. -/
def insertMember (name : String) (j : Json) : List (String × Json) → List (String × Json)
  | [] => [(name, j)]
  | (n, i) :: ms => if n = name then (n, j) :: ms else (n, i) :: insertMember name j ms

/-- The members that insertion in order makes of a list of members. -/
def mergeMembers (ms : List (String × Json)) : List (String × Json) :=
  ms.foldl (fun acc m => insertMember m.1 m.2 acc) []

/-- The name that stands for a key: a text is itself, any other key its literal. -/
def displayName (key : Value) : Except Fault String :=
  match key.unwrapped with
  | .str s => .ok s
  | _ => literal key

mutual

/-- The tree that displays a value. -/
def displayed : Value → Except Fault Json
  | .null => .ok .null
  | .bool b => .ok (.bool b)
  | .int i => (integerText i).map fun _ => .int i
  | .float x => .ok (.float x)
  | .str s => .ok (.str s)
  | .list xs => (displayedAll xs).map .arr
  | .tuple xs => (displayedAll xs).map .arr
  | .map _ es => (displayedMembers es).map fun ms => .obj (mergeMembers ms)
  | .scalar .double (.float x) => .ok (.float x)
  | .scalar .text (.str s) => .ok (.str s)
  | v => (literal v).map .str

/-- The trees that display a sequence. -/
def displayedAll : List Value → Except Fault (List Json)
  | [] => .ok []
  | x :: xs => do
    let j ← displayed x
    return j :: (← displayedAll xs)

/-- The members that display the entries of a mapping. -/
def displayedMembers : List (Value × Value) → Except Fault (List (String × Json))
  | [] => .ok []
  | (k, v) :: es => do
    let name ← displayName k
    let j ← displayed v
    return (name, j) :: (← displayedMembers es)

end

/-- The text that displays a value in messages. -/
def display (v : Value) : Except Fault String := v.displayed.map (Json.render .spaced)

/-! ### The reported form -/

mutual

/-- The value that stands in a report: keys as texts, special floats by name, and everything that
JSON cannot say by its plain text. -/
def reported : Value → Except Fault Value
  | .map false es => (reportedEntries es).map fun es => .dict (ofPairs es)
  | .list xs => (reportedAll xs).map .list
  | .tuple xs => (reportedAll xs).map .list
  | .float x => .ok (if x.isFinite then .float x else .str (Layout.plain.text x))
  | .scalar .double (.float x) =>
    .ok (if x.isFinite then .scalar .double (.float x) else .str (Layout.plain.text x))
  | .scalar .text (.str s) => .ok (.scalar .text (.str s))
  | .str s => .ok (.str s)
  | .int i => .ok (.int i)
  | .bool b => .ok (.bool b)
  | .null => .ok .null
  | v => (text v).map .str

/-- The reported values of a sequence. -/
def reportedAll : List Value → Except Fault (List Value)
  | [] => .ok []
  | x :: xs => do
    let y ← reported x
    return y :: (← reportedAll xs)

/-- The entries of a mapping under the plain texts of their keys. -/
def reportedEntries : List (Value × Value) → Except Fault (List (Value × Value))
  | [] => .ok []
  | (k, v) :: es => do
    let t ← text k
    let w ← reported v
    return (.str t, w) :: (← reportedEntries es)

end

end Assay.Value
