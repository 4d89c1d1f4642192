import BlockUpdate.Codec.Bits

/-!
# Canonical Huffman codes

A code is given by the lengths of its words: shorter words come first, words of one length in the
order of their symbols.

- `Huffman.ofLengths`: the code with given lengths, zero for a symbol that has no word.
- `Huffman.isUsable`: whether the words fill the space of all bit strings.
- `Huffman.symbol`: reads one word bit by bit.
- `Huffman.codes`: the words themselves, for writing.
- `Huffman.lengthsFor`: word lengths fitted to how often each symbol occurs.
-/

namespace BlockUpdate

/-- A canonical code. -/
structure Huffman where
  /-- How many words there are of each length from zero to the longest; index zero is unused. -/
  counts : Array Nat
  /-- The symbols that have words, in the order of their words. -/
  symbols : Array Nat

namespace Huffman

/-- How often a length occurs. -/
def countOf (lengths : List Nat) (length : Nat) : Nat := lengths.countP (· == length)

/-- The symbols of one length, in order. -/
def symbolsOf (lengths : List Nat) (length : Nat) : List Nat :=
  (lengths.zipIdx.filter fun entry => entry.1 == length).map (·.2)

/-- The canonical code with the given lengths, none above `longest`. -/
def ofLengths (longest : Nat) (lengths : List Nat) : Huffman where
  counts := ((List.range (longest + 1)).map fun n =>
    if n = 0 then 0 else countOf lengths n).toArray
  symbols := ((List.range longest).flatMap fun n => symbolsOf lengths (n + 1)).toArray

/-- The longest length that a word may have. -/
def longest (h : Huffman) : Nat := h.counts.size - 1

/-- The part of the space of bit strings of the longest length that the words fill. -/
def filled (h : Huffman) : Nat :=
  ((List.range (h.longest + 1)).map fun n => h.counts.getD n 0 * 2 ^ (h.longest - n)).sum

/-- Whether the words fill the whole space, each string once. -/
def isComplete (h : Huffman) : Bool := h.filled == 2 ^ h.longest

/-- Whether a stream may use the code: a complete one, or one of at most one word. -/
def isUsable (h : Huffman) : Bool := h.symbols.size ≤ 1 || h.isComplete

/-! ## Reading -/

/-- Looks for a word of each length in turn: `code` are the bits so far, `first` is the first word
of the length and `index` the place of its symbol. -/
def symbolFrom (h : Huffman) (bit : Decoder Nat) :
    Nat → (length code first index : Nat) → Decoder Nat
  | 0, _, _, _, _ => throw .corrupt
  | fuel + 1, length, code, first, index => do
    let code := code + (← bit)
    let count := h.counts.getD length 0
    if code < first + count then
      match h.symbols[index + (code - first)]? with
      | some s => return s
      | none => throw .corrupt
    else
      h.symbolFrom bit fuel (length + 1) (2 * code) (2 * (first + count)) (index + count)

/-- The symbol of the next word, with the given way to read a bit. -/
def symbol (h : Huffman) (bit : Decoder Nat) : Decoder Nat :=
  h.symbolFrom bit h.longest 1 0 0 0

/-! ## Writing -/

/-- The words of a canonical code: for each symbol the length and the word. -/
def codes (longest : Nat) (lengths : List Nat) : Array (Nat × Nat) :=
  let start := Array.replicate lengths.length (0, 0)
  ((List.range longest).foldl
    (fun (state : Array (Nat × Nat) × Nat) n =>
      let (table, code) :=
        (symbolsOf lengths (n + 1)).foldl
          (fun (state : Array (Nat × Nat) × Nat) symbol =>
            (state.1.setIfInBounds symbol (n + 1, state.2), state.2 + 1))
          state
      (table, 2 * code))
    (start, 0)).1

/-- Symbols that share the first bits of their words, with the depth of each below the point where
they part from the rest. -/
structure Subtree where
  weight : Nat
  leaves : List (Nat × Nat)

/-- Puts a subtree behind those that are not heavier. -/
def insertByWeight (t : Subtree) : List Subtree → List Subtree
  | [] => [t]
  | first :: rest =>
    if first.weight ≤ t.weight then first :: insertByWeight t rest else t :: first :: rest

/-- Joins the two lightest subtrees until one is left. -/
def join : Nat → List Subtree → List (Nat × Nat)
  | _, [] => []
  | _, [t] => t.leaves
  | 0, t :: _ => t.leaves
  | fuel + 1, a :: b :: rest =>
    let deeper := (a.leaves ++ b.leaves).map fun leaf => (leaf.1, leaf.2 + 1)
    join fuel (insertByWeight ⟨a.weight + b.weight, deeper⟩ rest)

/-- Word lengths for the given weights, all positive; the weights are flattened until no word is
longer than `longest`. -/
def lengthsFor (longest : Nat) : Nat → List Nat → List Nat
  | 0, weights => weights.map fun _ => longest
  | fuel + 1, weights =>
    let subtrees := weights.zipIdx.foldl
      (fun trees entry => insertByWeight ⟨entry.1, [(entry.2, 0)]⟩ trees) []
    let depths := join weights.length subtrees
    let table := depths.foldl (fun (t : Array Nat) leaf => t.setIfInBounds leaf.1 leaf.2)
      (Array.replicate weights.length 1)
    if table.all (· ≤ longest) then table.toList
    else lengthsFor longest fuel (weights.map fun w => w / 2 + 1)

end Huffman

end BlockUpdate
