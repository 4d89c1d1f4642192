import BlockUpdate.Codec.Huffman
import BlockUpdate.Codec.Stream
import BlockUpdate.Digest.Checksum

/-!
# Decoding bzip2

A stream is a header, blocks, and a trailer with a checksum over the checksums of the blocks.
Each block is a Huffman-coded list of move-to-front ranks and zero runs; these give the last
column of the sorted rotations, from which the text of the block is walked out; runs in that text
are expanded last.

- `Bzip2.decode`: the bytes of one stream; what follows it is not looked at.

A reader meets the corruption behind a block when it asks for the last byte of that block, so a
corrupt stream yields all but the last byte that precedes the damage; one that is cut off yields
all of its complete blocks.
-/

namespace BlockUpdate.Bzip2

/-! ## Constants of the format -/

/-- Marks the start of a block. -/
def blockMagic : Nat := 0x314159265359

/-- Marks the trailer. -/
def endMagic : Nat := 0x177245385090

/-- Words of a code are at most this long. -/
def longestWord : Nat := 20

/-- A selector serves this many symbols. -/
def groupSize : Nat := 50

/-- No block has use for more selectors. -/
def maxSelectors : Nat := 18002

/-- Intervals between the bytes that a randomised block has flipped. -/
def randomIntervals : Array Nat := #[
  619, 720, 127, 481, 931, 816, 813, 233, 566, 247, 985, 724, 205, 454, 863, 491, 741, 242, 949,
  214, 733, 859, 335, 708, 621, 574, 73, 654, 730, 472, 419, 436, 278, 496, 867, 210, 399, 680,
  480, 51, 878, 465, 811, 169, 869, 675, 611, 697, 867, 561, 862, 687, 507, 283, 482, 129, 807,
  591, 733, 623, 150, 238, 59, 379, 684, 877, 625, 169, 643, 105, 170, 607, 520, 932, 727, 476,
  693, 425, 174, 647, 73, 122, 335, 530, 442, 853, 695, 249, 445, 515, 909, 545, 703, 919, 874,
  474, 882, 500, 594, 612, 641, 801, 220, 162, 819, 984, 589, 513, 495, 799, 161, 604, 958, 533,
  221, 400, 386, 867, 600, 782, 382, 596, 414, 171, 516, 375, 682, 485, 911, 276, 98, 553, 163,
  354, 666, 933, 424, 341, 533, 870, 227, 730, 475, 186, 263, 647, 537, 686, 600, 224, 469, 68,
  770, 919, 190, 373, 294, 822, 808, 206, 184, 943, 795, 384, 383, 461, 404, 758, 839, 887, 715,
  67, 618, 276, 204, 918, 873, 777, 604, 560, 951, 160, 578, 722, 79, 804, 96, 409, 713, 940, 652,
  934, 970, 447, 318, 353, 859, 672, 112, 785, 645, 863, 803, 350, 139, 93, 354, 99, 820, 908, 609,
  772, 154, 274, 580, 184, 79, 626, 630, 742, 653, 282, 762, 623, 680, 81, 927, 626, 789, 125, 411,
  521, 938, 300, 821, 78, 343, 175, 128, 250, 170, 774, 972, 275, 999, 639, 495, 78, 352, 126, 857,
  956, 358, 619, 580, 124, 737, 594, 701, 612, 669, 112, 134, 694, 363, 992, 809, 743, 168, 974,
  944, 375, 748, 52, 600, 747, 642, 182, 862, 81, 344, 805, 988, 739, 511, 655, 814, 334, 249, 515,
  897, 955, 664, 981, 649, 113, 974, 459, 893, 228, 433, 837, 553, 268, 926, 240, 102, 654, 459,
  51, 686, 754, 806, 760, 493, 403, 415, 394, 687, 700, 946, 670, 656, 610, 738, 392, 760, 799,
  887, 653, 978, 321, 576, 617, 626, 502, 894, 679, 243, 440, 680, 879, 194, 572, 640, 724, 926,
  56, 204, 700, 707, 151, 457, 449, 797, 195, 791, 558, 945, 679, 297, 59, 87, 824, 713, 663, 412,
  693, 342, 606, 134, 108, 571, 364, 631, 212, 174, 643, 304, 329, 343, 97, 430, 751, 497, 314,
  983, 374, 822, 928, 140, 206, 73, 263, 980, 736, 876, 478, 430, 305, 170, 514, 364, 692, 829, 82,
  855, 953, 676, 246, 369, 970, 294, 750, 807, 827, 150, 790, 288, 923, 804, 378, 215, 828, 592,
  281, 565, 555, 710, 82, 896, 831, 547, 261, 524, 462, 293, 465, 502, 56, 661, 821, 976, 991, 658,
  869, 905, 758, 745, 193, 768, 550, 608, 933, 378, 286, 215, 979, 792, 961, 61, 688, 793, 644,
  986, 403, 106, 366, 905, 644, 372, 567, 466, 434, 645, 210, 389, 550, 919, 135, 780, 773, 635,
  389, 707, 100, 626, 958, 165, 504, 920, 176, 193, 713, 857, 265, 203, 50, 668, 108, 645, 990,
  626, 197, 510, 357, 358, 850, 858, 364, 936, 638]

/-! ## Parts of a block -/

/-- `n` flags. -/
def flags : Nat → Decoder (List Bool)
  | 0 => return []
  | n + 1 => do
    let bit ← Decoder.highBit
    return (bit == 1) :: (← flags n)

/-- The bytes used in a block: a map of sixteen ranges, and a map of each range in use. -/
def usedBytes : Decoder (List Nat) := do
  let ranges ← flags 16
  let rec go : List Bool → Nat → Decoder (List Nat)
    | [], _ => return []
    | false :: rest, i => go rest (i + 1)
    | true :: rest, i => do
      let bits ← flags 16
      let here := (bits.zipIdx.filter (·.1)).map fun entry => 16 * i + entry.2
      return here ++ (← go rest (i + 1))
  go ranges 0

/-- The number of one bits before a zero bit; it stays below `limit`. -/
def unary (limit : Nat) : Nat → Nat → Decoder Nat
  | 0, _ => throw .corrupt
  | fuel + 1, n => do
    if (← Decoder.highBit) = 0 then return n
    else if limit ≤ n + 1 then throw .corrupt
    else unary limit fuel (n + 1)

/-- Moves the entry at an index to the front. -/
def moveToFront (list : List Nat) (i : Nat) : List Nat :=
  match list[i]? with
  | some x => x :: list.eraseIdx i
  | none => list

/-- The table that serves each group of symbols, written as move-to-front ranks. -/
def selectors (tables : Nat) : Nat → List Nat → Array Nat → Decoder (Array Nat)
  | 0, _, acc => return acc
  | n + 1, recent, acc => do
    let i ← unary tables (tables + 1) 0
    let recent := moveToFront recent i
    selectors tables n recent (acc.push (recent.headD 0))

/-- One word length, given the one before it: steps up and down, each behind a one bit. -/
def wordLength : Nat → Nat → Decoder Nat
  | 0, _ => throw .truncated
  | fuel + 1, length => do
    if length < 1 ∨ longestWord < length then
      throw .corrupt
    if (← Decoder.highBit) = 0 then return length
    else if (← Decoder.highBit) = 0 then wordLength fuel (length + 1)
    else wordLength fuel (length - 1)

/-- The word lengths of one table. -/
def wordLengths (bits : Nat) : Nat → Nat → Decoder (List Nat)
  | 0, _ => return []
  | n + 1, length => do
    let length ← wordLength bits length
    return length :: (← wordLengths bits n length)

/-- The tables of a block. -/
def tables (bits symbols : Nat) : Nat → Decoder (List Huffman)
  | 0 => return []
  | n + 1 => do
    let lengths ← wordLengths bits symbols (← Decoder.highBits 5)
    return Huffman.ofLengths longestWord lengths :: (← tables bits symbols n)

/-- Appends a byte `n` times. -/
def pushRun (b : UInt8) : Nat → Bytes → Bytes
  | 0, out => out
  | n + 1, out => pushRun b n (out.push b)

/-- What is known while the symbols of a block are read. -/
structure Column where
  /-- The last column so far. -/
  bytes : Bytes
  /-- The bytes in use, the most recent first. -/
  recent : List Nat
  /-- Length of the zero run under way, and the weight of its next digit. -/
  run : Nat
  weight : Nat

/-- Writes out the zero run under way: repeats of the most recent byte. -/
def Column.flush (c : Column) : Column :=
  { c with
    bytes := pushRun (UInt8.ofNat (c.recent.headD 0)) c.run c.bytes
    run := 0
    weight := 1 }

/-- Reads the last column of a block. Every round reads at least one bit. -/
def column (codes : Array Huffman) (groups : Array Nat) (limit endSymbol : Nat) :
    Nat → (seen : Nat) → Column → Decoder Bytes
  | 0, _, _ => throw .truncated
  | fuel + 1, seen, c => do
    let some table := groups[seen / groupSize]?
      | throw .corrupt
    let some code := codes[table]?
      | throw .corrupt
    let s ← code.symbol Decoder.highBit
    if s ≤ 1 then
      if 2 * 1024 * 1024 ≤ c.weight then
        throw .corrupt
      column codes groups limit endSymbol fuel (seen + 1)
        { c with run := c.run + (s + 1) * c.weight, weight := 2 * c.weight }
    else if limit < c.bytes.size + c.run then
      throw .corrupt
    else
      let c := c.flush
      if s = endSymbol then
        return c.bytes
      else if limit ≤ c.bytes.size then
        throw .corrupt
      else
        let recent := moveToFront c.recent (s - 1)
        column codes groups limit endSymbol fuel (seen + 1)
          { c with recent, bytes := c.bytes.push (UInt8.ofNat (recent.headD 0)) }

/-! ## From the last column to the text -/

/-- The number of bytes in the column below each value. -/
def startsOf (last : Bytes) : Array Nat :=
  let counts := last.foldl (fun (t : Array Nat) b => t.modify b.toNat (· + 1))
    (Array.replicate 256 0)
  (counts.foldl (fun (state : Array Nat × Nat) n => (state.1.push state.2, state.2 + n))
    (#[], 0)).1

/-- For each row of the sorted rotations, the row of the rotation that starts one byte later. -/
def successors (last : Bytes) : Array Nat :=
  let fill := last.foldl
    (fun (state : Array Nat × Array Nat × Nat) b =>
      let (next, starts, i) := state
      let slot := starts.getD b.toNat 0
      (next.setIfInBounds slot i, starts.setIfInBounds b.toNat (slot + 1), i + 1))
    (Array.replicate last.size 0, startsOf last, 0)
  fill.1

/-- Walks `n` bytes of text from a row on. -/
def walk (last : Bytes) (next : Array Nat) : Nat → Nat → Bytes → Bytes
  | 0, _, out => out
  | n + 1, row, out => walk last next n (next.getD row 0) (out.push (last.get! row))

/-- The text whose rotation at `origin` gave the first row, and the byte that the walk finds behind
its end. -/
def textOf (last : Bytes) (origin : Nat) : Bytes :=
  let next := successors last
  walk last next (last.size + 1) (next.getD origin 0) ByteArray.empty

/-- Flips the bytes of a randomised block back. -/
def derandomise (text : Bytes) : Bytes :=
  let state := text.foldl
    (fun (state : Bytes × Nat × Nat) b =>
      let (out, left, index) := state
      let (left, index) :=
        if left = 0 then (randomIntervals.getD index 0, (index + 1) % 512) else (left, index)
      let left := left - 1
      (out.push (if left = 1 then b ^^^ 1 else b), left, index))
    (ByteArray.empty, 0, 0)
  state.1

/-- Expands the runs of the first `size` bytes: after four equal bytes, the next byte counts
further ones. A run whose count lies behind the end takes it from there, but the text is not whole
then. -/
def expandRuns (text : Bytes) (size : Nat) (out : Bytes) : Bytes × Bool :=
  let (out, last, equal) := (text.takeFirst size).foldl
    (fun (state : Bytes × UInt8 × Nat) b =>
      let (out, last, equal) := state
      if equal = 4 then (pushRun last b.toNat out, 0, 0)
      else if equal ≠ 0 ∧ b = last then (out.push b, last, equal + 1)
      else (out.push b, b, 1))
    (out, 0, 0)
  if equal = 4 then (pushRun last (text.get! size).toNat out, false) else (out, true)

/-! ## Streams -/

/-- One block behind its magic number; gives the updated checksum of the stream. -/
def block (maxBlock combined : Nat) : Decoder Nat := do
  let stored ← Decoder.highBits 32
  let randomised ← Decoder.highBit
  let origin ← Decoder.highBits 24
  if 10 + maxBlock < origin then
    throw .corrupt
  let used ← usedBytes
  if used.isEmpty then
    throw .corrupt
  let symbols := used.length + 2
  let tableCount ← Decoder.highBits 3
  let selectorCount ← Decoder.highBits 15
  if tableCount < 2 ∨ 6 < tableCount ∨ selectorCount < 1 then
    throw .corrupt
  let groups ← selectors tableCount selectorCount (List.range tableCount) #[]
  let bits := 8 * (← get).input.size + 1
  let codes ← tables bits symbols tableCount
  let last ←
    column codes.toArray (groups.extract 0 maxSelectors) maxBlock (symbols - 1) bits 0
      ⟨ByteArray.empty, used, 0, 1⟩
  if last.size ≤ origin then
    throw .corrupt
  let text := textOf last origin
  let text := if randomised = 1 then derandomise text else text
  let before := (← get).output.size
  let (output, whole) := expandRuns text last.size (← get).output
  modify fun r => { r with output }
  let checksum := (Crc32.direct ((← get).output.dropFirst before)).toNat
  if ¬ whole ∨ checksum ≠ stored then
    throw .corrupt
  return Nat.xor (2 * combined % 2 ^ 32 + combined / 2 ^ 31) checksum

/-- Blocks up to the trailer. -/
def blocks (maxBlock : Nat) : Nat → Nat → Decoder Unit
  | 0, _ => throw .truncated
  | fuel + 1, combined => do
    let magic ← Decoder.highBits 48
    if magic = blockMagic then
      blocks maxBlock fuel (← block maxBlock combined)
    else if magic = endMagic then
      if (← Decoder.highBits 32) ≠ combined then
        throw .corrupt
    else throw .corrupt

/-- A whole stream. -/
def stream : Decoder Unit := do
  let magic ← Decoder.highBits 24
  let level ← Decoder.highBits 8
  if magic ≠ 0x425a68 ∨ level < 0x31 ∨ 0x39 < level then
    throw .corrupt
  blocks (100000 * (level - 0x30)) (8 * (← get).input.size + 1) 0

/-- Decodes one stream. -/
def decode (data : Bytes) : Decoded :=
  match Decoder.start stream data with
  | .ok _ r => ⟨r.output, false⟩
  | .error .truncated r => ⟨r.output, true⟩
  | .error .corrupt r => ⟨r.output.takeFirst (r.output.size - 1), true⟩

end BlockUpdate.Bzip2
