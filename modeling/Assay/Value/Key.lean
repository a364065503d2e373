import Assay.Value.Basic

/-!
# Keys and entries

Two keys are the same when they are in one class, or are equal part by part. Entries keep the order of
first insertion and the first key; the last value wins. The main statements give the keys after an
insertion.
-/

namespace Assay.Value

variable {τ : Type}

/-! ### Sameness of keys -/

/-- The class of an item as key. -/
def itemClass : Item τ → KeyClass τ
  | .bool b => .number (.whole (if b then 1 else 0))
  | .int i => .number (.whole i)
  | .float x => .number (numericKeyOfDouble x)
  | .str s => .text s

/-- The class of a key, if it has one; sequences, mappings and arrays have none. -/
def keyClass? : Value τ → Option (KeyClass τ)
  | .absent => some .absent
  | .null => some .null
  | .bool b => some (.number (.whole (if b then 1 else 0)))
  | .int i => some (.number (.whole i))
  | .float x => some (.number (numericKeyOfDouble x))
  | .str s => some (.text s)
  | .bytes bs => some (.bytes bs)
  | .date d => some (.date d)
  | .moment m => some (.moment m.offset.isSome m.instant)
  | .foreign o => some o.key
  | .scalar _ i => some (itemClass i)
  | _ => none

/-- The number that a key is, if it is one. -/
def numericKey? (v : Value τ) : Option NumericKey :=
  match keyClass? v with
  | some (.number n) => some n
  | _ => none

/-- The text that a key is, if it is one. -/
def textKey? (v : Value τ) : Option τ :=
  match keyClass? v with
  | some (.text s) => some s
  | _ => none

variable [DecidableEq τ]

/-- Sameness of keys other than tuples. -/
def sameLeaf (a b : Value τ) : Bool :=
  match keyClass? a, keyClass? b with
  | some c, some d => c == d
  | _, _ => false

mutual

/-- Whether two keys are the same. -/
def sameKey : Value τ → Value τ → Bool
  | .tuple xs, .tuple ys => sameKeys xs ys
  | a, b => sameLeaf a b

/-- Whether two sequences of keys are the same part by part. -/
def sameKeys : List (Value τ) → List (Value τ) → Bool
  | [], [] => true
  | x :: xs, y :: ys => sameKey x y && sameKeys xs ys
  | _, _ => false

end

theorem sameKey_str (s t : τ) : sameKey (.str s) (.str t) = (s == t) := by
  rw [Bool.eq_iff_iff]
  simp [sameKey, sameLeaf, keyClass?]

theorem sameKey_int (i j : Int) : sameKey (.int i : Value τ) (.int j) = (i == j) := by
  rw [Bool.eq_iff_iff]
  simp [sameKey, sameLeaf, keyClass?]

/-- A truth value is the same key as the number 1 or 0. -/
theorem sameKey_bool_int (b : Bool) :
    sameKey (.bool b : Value τ) (.int (if b then 1 else 0)) = true := by
  cases b <;> rfl

/-! ### Entries -/

/-- The entries of a mapping, by key. -/
abbrev Entries (τ : Type := String) := List (Value τ × Value τ)

/-- The value under a key. -/
def lookup (key : Value τ) : Entries τ → Option (Value τ)
  | [] => none
  | (k, v) :: es => if sameKey k key then some v else lookup key es

/-- Whether a key is present. -/
def hasKey (key : Value τ) (es : Entries τ) : Bool := es.any fun e => sameKey e.1 key

/-- Puts a value under a key: a present key keeps its place and spelling, a new one goes last. -/
def insert (key value : Value τ) : Entries τ → Entries τ
  | [] => [(key, value)]
  | (k, v) :: es => if sameKey k key then (k, value) :: es else (k, v) :: insert key value es

/-- The entries that insertion in order makes of a list of pairs. -/
def ofPairs (pairs : List (Value τ × Value τ)) : Entries τ :=
  pairs.foldl (fun es p => insert p.1 p.2 es) []

/-- The value under a text key. -/
def field (name : τ) (es : Entries τ) : Option (Value τ) := lookup (.str name) es

/-- Whether two lists of entries have the same set of keys. -/
def sameKeySet (as bs : Entries τ) : Bool :=
  as.length == bs.length && as.all fun e => hasKey e.1 bs

/-- The keys after an insertion: a present key changes nothing, a new one is appended. -/
theorem insert_keys (key value : Value τ) (es : Entries τ) :
    (insert key value es).map Prod.fst =
      if hasKey key es then es.map Prod.fst else es.map Prod.fst ++ [key] := by
  induction es with
  | nil => rfl
  | cons e es ih =>
    obtain ⟨k, v⟩ := e
    by_cases h : sameKey k key = true
    · simp [insert, hasKey, h]
    · have split : hasKey key ((k, v) :: es) = hasKey key es := by simp [hasKey, h]
      rw [split]
      simp only [insert, h, Bool.false_eq_true, if_false, List.map_cons, ih]
      split <;> rfl

/-- A key that is present has a value. -/
theorem lookup_isSome (key : Value τ) (es : Entries τ) : (lookup key es).isSome = hasKey key es := by
  induction es with
  | nil => rfl
  | cons e es ih =>
    obtain ⟨k, v⟩ := e
    by_cases h : sameKey k key = true
    · simp [lookup, hasKey, h]
    · simp_all [lookup, hasKey]

end Assay.Value
