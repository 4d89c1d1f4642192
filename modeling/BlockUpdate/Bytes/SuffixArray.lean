import BlockUpdate.Bytes

/-!
# Suffix arrays

The positions of a byte string in the lexicographic order of the suffixes that start there.

The order is refined by doubling: once positions are ranked by the first `k` bytes of their
suffixes, pairs of ranks `k` apart rank them by the first `2 * k`. When all ranks differ, the
order is that of the suffixes themselves.
-/

namespace BlockUpdate.SuffixArray

/-- The sort key of a position, given the ranks by the first `k` bytes: its own rank, then the
rank `k` positions later, where the end of the string comes before everything. -/
def key (rank : Array Nat) (k width i : Nat) : Nat :=
  rank[i]! * width + (if i + k < rank.size then rank[i + k]! + 1 else 0)

/-- The keys of all positions. Every rank is below `width - 1`. -/
def keys (rank : Array Nat) (k width : Nat) : Array Nat :=
  (Array.range rank.size).map (key rank k width)

/-- Positions ordered by key. -/
def sortByKey (keys : Array Nat) (order : List Nat) : List Nat :=
  order.mergeSort fun i j => keys[i]! ≤ keys[j]!

/-- Ranks the positions behind `previous`, which has rank `r`: the rank grows where the key does. -/
def assignRanks (keys : Array Nat) : Nat → Nat → List Nat → Array Nat → Array Nat × Nat
  | _, r, [], ranks => (ranks, r)
  | previous, r, i :: rest, ranks =>
    let r := if keys[previous]! < keys[i]! then r + 1 else r
    assignRanks keys i r rest (ranks.setIfInBounds i r)

/-- Doubles `k` until all ranks differ. -/
def refine : Nat → (k : Nat) → (rank : Array Nat) → (order : List Nat) → List Nat
  | 0, _, _, order => order
  | fuel + 1, k, rank, order =>
    let ks := keys rank k (max 256 rank.size + 1)
    let order := sortByKey ks order
    match order with
    | [] => []
    | first :: rest =>
      let (rank, last) := assignRanks ks first 0 rest (rank.setIfInBounds first 0)
      if last + 1 = rank.size then order else refine fuel (2 * k) rank order

/-- The suffix array of a byte string. -/
def build (data : Bytes) : Array Nat :=
  let positions := List.range data.size
  if data.size < 2 then positions.toArray
  else
    (refine data.size 1 (data.data.map UInt8.toNat) positions).toArray

end BlockUpdate.SuffixArray
