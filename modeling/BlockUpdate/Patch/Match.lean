import BlockUpdate.Bytes.SuffixArray

/-!
# The longest match of a target in old data

- `Match.search`: the longest run of leading bytes of a target that occurs in old data, found by
  binary search in the suffix array of the old data.
-/

namespace BlockUpdate.Match

/-- Whether the suffix of `old` at `position`, cut to the common length, comes before the target
that starts at `start` of `new`, cut likewise. -/
def comesBefore (old : Bytes) (position : Nat) (new : Bytes) (start : Nat) : Bool :=
  let n := Bytes.matchLengthFrom old position new start 0
  if position + n < old.size ∧ start + n < new.size then
    old.get! (position + n) < new.get! (start + n)
  else false

/-- Narrows the candidates to two neighbours in the suffix array, and takes the longer match; of
two equal ones the later neighbour. -/
def narrow (suffixes : Array Nat) (old new : Bytes) (start : Nat) (low high : Nat) : Nat × Nat :=
  if high - low < 2 then
    let a := suffixes[low]!
    let b := suffixes[high]!
    let x := Bytes.matchLengthFrom old a new start 0
    let y := Bytes.matchLengthFrom old b new start 0
    if y < x then (x, a) else (y, b)
  else
    let middle := low + (high - low) / 2
    if comesBefore old suffixes[middle]! new start then
      narrow suffixes old new start middle high
    else narrow suffixes old new start low middle
termination_by high - low

/-- The length and the old position of the longest match of the target at `start` of `new`. -/
def search (suffixes : Array Nat) (old new : Bytes) (start : Nat) : Nat × Nat :=
  if suffixes.isEmpty then (0, 0)
  else narrow suffixes old new start 0 (suffixes.size - 1)

end BlockUpdate.Match
