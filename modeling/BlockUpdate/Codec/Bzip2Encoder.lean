import BlockUpdate.Codec.Bzip2
import BlockUpdate.Bytes.SuffixArray

/-!
# Compressing to bzip2

The steps of decoding in the opposite order: runs are shortened, the rotations of a block are
sorted, the last column is written as move-to-front ranks and zero runs, and these are
Huffman-coded.

- `Bzip2Encoder.encode`: the stream for a byte string.
-/

namespace BlockUpdate.Bzip2Encoder

/-- The length of the run of equal bytes at `i`, up to `limit`. -/
def runLength (data : Bytes) (b : UInt8) : Nat → Nat → Nat
  | 0, _ => 0
  | limit + 1, i =>
    if i < data.size ∧ data.get! i = b then runLength data b limit (i + 1) + 1 else 0

/-- Writes a run of four or more bytes as four bytes and a count of further ones. -/
def shortenRuns (data : Bytes) : Nat → Nat → Bytes → Bytes
  | 0, _, out => out
  | fuel + 1, i, out =>
    if data.size ≤ i then out
    else
      let b := data.get! i
      let n := runLength data b 259 i
      let out := Bzip2.pushRun b (min 4 n) out
      shortenRuns data fuel (i + n) (if 4 ≤ n then out.push (UInt8.ofNat (n - 4)) else out)

/-- The last column of the sorted rotations of a text, and the row of the text itself. The
rotations are ordered like the suffixes of the doubled text that start in its first half. -/
def lastColumn (text : Bytes) : Bytes × Nat :=
  let n := text.size
  let rows := (SuffixArray.build (text ++ text)).filter (· < n)
  let column := rows.foldl
    (fun (out : Bytes) i => out.push (text.get! (if i = 0 then n - 1 else i - 1)))
    ByteArray.empty
  (column, (rows.idxOf? 0).getD 0)

/-- The digits of a zero run, least significant first: one for symbol zero, two for symbol one. -/
def runSymbols : Nat → Nat → List Nat
  | 0, _ => []
  | fuel + 1, n =>
    if n = 0 then [] else (n - 1) % 2 :: runSymbols fuel ((n - 1) / 2)

/-- The symbols of a column: zero runs and shifted move-to-front ranks, then the end symbol. -/
def columnSymbols (used : List Nat) (column : Bytes) : Array Nat :=
  let (out, _, run) := column.foldl
    (fun (state : Array Nat × List Nat × Nat) b =>
      let (out, recent, run) := state
      match recent.idxOf? b.toNat with
      | none => (out, recent, run)
      | some 0 => (out, recent, run + 1)
      | some i =>
        ((out ++ runSymbols 64 run).push (i + 1), Bzip2.moveToFront recent i, 0))
    (#[], used, 0)
  (out ++ runSymbols 64 run).push (used.length + 1)

/-- The map of bytes in use: sixteen range flags, then the flags of each range in use. -/
def putUsed (w : BitWriter) (used : List Nat) : BitWriter :=
  let inRange (i : Nat) : List Nat := used.filter fun b => b / 16 = i
  let w := (List.range 16).foldl
    (fun w i => w.putHigh 1 (if (inRange i).isEmpty then 0 else 1)) w
  (List.range 16).foldl
    (fun w i =>
      let here := inRange i
      if here.isEmpty then w
      else
        (List.range 16).foldl
          (fun w j => w.putHigh 1 (if here.contains (16 * i + j) then 1 else 0)) w)
    w

/-- One step of a word length up or down, repeated. -/
def putSteps (w : BitWriter) (step : Nat) : Nat → BitWriter
  | 0 => w
  | n + 1 => putSteps (w.putHigh 2 step) step n

/-- The word lengths of a table: the first one, then the steps from each to the next. -/
def putLengths (w : BitWriter) (lengths : List Nat) : BitWriter :=
  let first := lengths.headD 1
  (lengths.foldl
    (fun (state : BitWriter × Nat) l =>
      let w := putSteps state.1 2 (l - state.2)
      let w := putSteps w 3 (state.2 - l)
      (w.putHigh 1 0, l))
    (w.putHigh 5 first, first)).1

/-- The longest word that the encoder uses. -/
def longestWord : Nat := 17

/-- Writes one block. Two equal tables serve it, as the format asks for at least two. -/
def putBlock (w : BitWriter) (text : Bytes) (checksum : Nat) : BitWriter :=
  let (column, origin) := lastColumn text
  let seen := text.foldl (fun (t : Array Bool) b => t.setIfInBounds b.toNat true)
    (Array.replicate 256 false)
  let used := (List.range 256).filter fun b => seen.getD b false
  let symbols := columnSymbols used column
  let weights := symbols.foldl (fun (t : Array Nat) s => t.modify s (· + 1))
    (Array.replicate (used.length + 2) 1)
  let lengths := Huffman.lengthsFor longestWord 32 weights.toList
  let codes := Huffman.codes longestWord lengths
  let groups := (symbols.size + Bzip2.groupSize - 1) / Bzip2.groupSize
  let w := ((w.putHigh 48 Bzip2.blockMagic).putHigh 32 checksum).putHigh 1 0
  let w := putUsed (w.putHigh 24 origin) used
  let w := putSteps ((w.putHigh 3 2).putHigh 15 groups) 0 (groups / 2)
  let w := if groups % 2 = 1 then w.putHigh 1 0 else w
  let w := putLengths (putLengths w lengths) lengths
  symbols.foldl
    (fun w s =>
      let (length, code) := codes.getD s (0, 0)
      w.putHigh length code)
    w

/-- How much input goes into one block: it fits into nine hundred thousand bytes even if every run
of four grows to five bytes. -/
def blockInput : Nat := 700000

/-- Writes the blocks from `i` on, and the trailer. -/
def putBlocks (data : Bytes) : Nat → Nat → Nat → BitWriter → BitWriter
  | 0, _, _, w => w
  | fuel + 1, i, combined, w =>
    if data.size ≤ i then (w.putHigh 48 Bzip2.endMagic).putHigh 32 combined
    else
      let part := data.extract i (i + blockInput)
      let checksum := (Crc32.direct part).toNat
      let w := putBlock w (shortenRuns part part.size 0 ByteArray.empty) checksum
      putBlocks data fuel (i + blockInput)
        (Nat.xor (2 * combined % 2 ^ 32 + combined / 2 ^ 31) checksum) w

/-- The stream for a byte string. -/
def encode (data : Bytes) : Bytes :=
  (putBlocks data (data.size + 1) 0 0 (({} : BitWriter).putHigh 32 0x425a6839)).finishHigh

end BlockUpdate.Bzip2Encoder
