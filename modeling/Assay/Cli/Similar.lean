/-!
# Similar words

Two words are similar when enough of their characters lie in common blocks: the longest block comes
first, and the parts before and after it are matched in the same way.
-/

namespace Assay.Cli

/-- The length of the longest common start. -/
def commonStart : List Char → List Char → Nat
  | a :: as, b :: bs => if a = b then commonStart as bs + 1 else 0
  | _, _ => 0

/-- The longest common block, the earliest of equal ones: where it starts in either word, and its
length. -/
def longestBlock (as bs : List Char) : Nat × Nat × Nat :=
  let blocks := (List.range as.length).flatMap fun i =>
    (List.range bs.length).map fun j => (i, j, commonStart (as.drop i) (bs.drop j))
  blocks.foldl (fun best b => if best.2.2 < b.2.2 then b else best) (0, 0, 0)

/-- The number of characters in common blocks. -/
def matched : Nat → List Char → List Char → Nat
  | 0, _, _ => 0
  | fuel + 1, as, bs =>
    let (i, j, k) := longestBlock as bs
    if k = 0 then 0
    else
      k + matched fuel (as.take i) (bs.take j) + matched fuel (as.drop (i + k)) (bs.drop (j + k))

/-- A word with the number of characters that it shares with another one, and the number of all
characters of both. -/
structure Similarity where
  word : String
  shared : Nat
  total : Nat
deriving DecidableEq, Repr

namespace Similarity

/-- The similarity of a candidate to a word. -/
def ofCandidate (word candidate : String) : Similarity :=
  let as := candidate.toList
  let bs := word.toList
  ⟨candidate, matched (as.length + 1) as bs, as.length + bs.length⟩

/-- At least three fifths of the characters are shared. -/
def isClose (s : Similarity) : Bool := 3 * s.total ≤ 10 * s.shared

/-- Order by the share, greater ones first, and then by the word. -/
def before (s t : Similarity) : Bool :=
  let x := s.shared * t.total
  let y := t.shared * s.total
  if x = y then !decide (s.word < t.word) else y < x

end Similarity

/-- The closest candidates, at most three, in alphabetical order. -/
def similar (word : String) (candidates : List String) : List String :=
  let close := (candidates.map (Similarity.ofCandidate word)).filter Similarity.isClose
  ((close.mergeSort Similarity.before).take 3).map Similarity.word |>.mergeSort fun s t =>
    !decide (t < s)

end Assay.Cli
