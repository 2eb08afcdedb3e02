/-!
# Similarity of words

How alike two words are: the share of their characters that stand in common blocks. The longest block
that the two have in common is taken first, then the longest ones on either side of it.
-/
namespace SchemaAtlas.Text

/-- The number of characters that two lists start with in common. -/
def commonStart : List Char → List Char → Nat
  | a :: as, b :: bs => if a = b then commonStart as bs + 1 else 0
  | _, _ => 0

/-- A block that stands at one place in each of two lists. -/
structure CommonBlock where
  first : Nat
  second : Nat
  size : Nat

/-- The longest common block; of several the one that comes first, in the first list to begin with. -/
def longestBlock (as bs : List Char) : CommonBlock :=
  (List.range as.length).foldl
    (fun best i =>
      (List.range bs.length).foldl
        (fun best j =>
          let size := commonStart (as.drop i) (bs.drop j)
          if best.size < size then ⟨i, j, size⟩ else best)
        best)
    ⟨0, 0, 0⟩

/-- The number of characters in common blocks. The bound is the length of the first list. -/
def commonSize : (bound : Nat) → List Char → List Char → Nat
  | 0, _, _ => 0
  | bound + 1, as, bs =>
    let block := longestBlock as bs
    if block.size = 0 then 0
    else
      block.size + commonSize bound (as.take block.first) (bs.take block.second) +
        commonSize bound (as.drop (block.first + block.size)) (bs.drop (block.second + block.size))

/-- The similarity of two words, from zero to one. -/
def similarity (a b : String) : Rat :=
  let total := a.length + b.length
  if total = 0 then 1 else mkRat (2 * commonSize a.length a.toList b.toList) total

/-- The share that makes a word worth suggesting. -/
def closeEnough : Rat := mkRat 3 5

/-- The words that are most like a given one, at most three of them. -/
def closeWords (word : String) (words : List String) : List String :=
  let rated := (words.map fun other => (similarity other word, other)).filter fun entry =>
    closeEnough ≤ entry.1
  let ordered := rated.mergeSort fun a b => if a.1 = b.1 then decide (b.2 ≤ a.2) else decide (b.1 ≤ a.1)
  (ordered.take 3).map (·.2)

end SchemaAtlas.Text
