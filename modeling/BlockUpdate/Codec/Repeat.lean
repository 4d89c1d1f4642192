import BlockUpdate.Bytes

/-!
# Repeats in a byte string

Compressors describe data as runs of literal bytes, each followed by a repeat of earlier bytes.

- `Repeat.Sequence`: a literal run and the repeat behind it.
- `Repeat.sequences`: a greedy description, which looks up the last place where the next four
  bytes occurred.
-/

namespace BlockUpdate.Repeat

/-- A run of literal bytes, and the repeat behind it: `length` bytes that occurred `distance`
earlier. A length of zero stands for no repeat. -/
structure Sequence where
  literalStart : Nat
  literalLength : Nat
  length : Nat
  distance : Nat
  deriving Repr, DecidableEq

/-- What a format allows. -/
structure Limits where
  minLength : Nat
  maxLength : Nat
  /-- The farthest distance. -/
  window : Nat
  /-- Bytes at the end that stay literal. -/
  literalTail : Nat
  /-- A repeat starts at least this far before the end. -/
  startTail : Nat

/-- The number of entries of the table of places. -/
def tableSize : Nat := 8192

/-- The table index of the four bytes at `i`. -/
def slot (data : Bytes) (i : Nat) : Nat :=
  let word := (data.get! i).toUInt32 ||| ((data.get! (i + 1)).toUInt32 <<< 8) |||
    ((data.get! (i + 2)).toUInt32 <<< 16) ||| ((data.get! (i + 3)).toUInt32 <<< 24)
  ((word * 2654435761) >>> 19).toNat

/-- Extends a repeat of the bytes at `j` to the bytes at `i`, up to `stop`. -/
def extend (data : Bytes) (stop : Nat) (j i n : Nat) : Nat :=
  if i < stop ∧ data.get! j = data.get! i then extend data stop (j + 1) (i + 1) (n + 1) else n
termination_by stop - i

/-- The length of the repeat at `i` that starts at place `seen - 1`, zero if that is no place. -/
def lengthAt (limits : Limits) (data : Bytes) (seen i : Nat) : Nat :=
  if seen = 0 ∨ limits.window < i + 1 - seen then 0
  else
    extend data (min (data.size - limits.literalTail) (i + limits.maxLength)) (seen - 1) i 0

/-- Describes the data from `i` on, where the literal run under way began at `start`. The table
holds one more than the last place of each slot, and zero for none. -/
def describe (limits : Limits) (data : Bytes) (i start : Nat) (table : Array Nat)
    (acc : Array Sequence) : Array Sequence :=
  if data.size < i + 4 ∨ data.size < i + limits.startTail then
    acc.push ⟨start, data.size - start, 0, 0⟩
  else
    let s := slot data i
    let seen := table.getD s 0
    let length := lengthAt limits data seen i
    let table := table.setIfInBounds s (i + 1)
    if limits.minLength ≤ length ∧ 0 < length then
      describe limits data (i + length) (i + length) table
        (acc.push ⟨start, i - start, length, i + 1 - seen⟩)
    else describe limits data (i + 1) start table acc
termination_by data.size - i
decreasing_by
  · show data.size - (i + lengthAt limits data seen i) < data.size - i
    omega
  · omega

/-- The description of a whole string; it ends with a sequence that has no repeat. -/
def sequences (limits : Limits) (data : Bytes) : Array Sequence :=
  describe limits data 0 0 (Array.replicate tableSize 0) #[]

end BlockUpdate.Repeat
