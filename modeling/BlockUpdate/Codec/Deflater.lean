import BlockUpdate.Codec.Deflate
import BlockUpdate.Codec.Repeat

/-!
# Compressing to deflate, zlib and gzip

- `Deflater.stored`: a stream of stored blocks, which effort zero asks for.
- `Deflater.coded`: a stream of one block with the fixed codes.
- `Deflater.encoder`: the compressor for given parameters, with the header and trailer of its
  container.
-/

namespace BlockUpdate.Deflater

/-- The largest stored block. -/
def maxStored : Nat := 65535

/-- One stored block. -/
def storedBlock (final : Bool) (data : Bytes) : Bytes :=
  Bytes.ofList [if final then 1 else 0] ++ LittleEndian.encode 2 data.size ++
    LittleEndian.encode 2 (maxStored - data.size) ++ data

/-- Stored blocks from `i` on; the last one is marked. -/
def storedFrom : Nat → Bytes → Nat → Bytes → Bytes
  | 0, _, _, out => out
  | fuel + 1, data, i, out =>
    if data.size ≤ i + maxStored then out ++ storedBlock true (data.dropFirst i)
    else
      storedFrom fuel data (i + maxStored)
        (out ++ storedBlock false (data.extract i (i + maxStored)))

/-- The data as stored blocks. -/
def stored (data : Bytes) : Bytes := storedFrom (data.size + 1) data 0 ByteArray.empty

/-- The words of the fixed literal code. -/
def literalCodes : Array (Nat × Nat) :=
  Huffman.codes Deflate.longestWord Deflate.fixedLiteralLengths

/-- The words of the fixed distance code. -/
def distanceCodes : Array (Nat × Nat) :=
  Huffman.codes Deflate.longestWord Deflate.fixedDistanceLengths

/-- The last entry whose smallest value is at most `n`. -/
def entryOf (table : Array (Nat × Nat)) (n : Nat) : Nat :=
  (table.toList.takeWhile fun entry => entry.1 ≤ n).length - 1

/-- Writes one word of a code. -/
def putWord (codes : Array (Nat × Nat)) (w : BitWriter) (s : Nat) : BitWriter :=
  let (length, code) := codes.getD s (0, 0)
  w.putCode length code

/-- Writes literal bytes. -/
def putLiterals (data : Bytes) : Nat → Nat → BitWriter → BitWriter
  | 0, _, w => w
  | n + 1, i, w => putLiterals data n (i + 1) (putWord literalCodes w (data.get! i).toNat)

/-- Writes a repeat: the words for its length and its distance, each with its extra bits. -/
def putRepeat (w : BitWriter) (length distance : Nat) : BitWriter :=
  let l := entryOf Deflate.lengthTable length
  let (base, extra) := Deflate.lengthTable.getD l (0, 0)
  let w := (putWord literalCodes w (257 + l)).putLow extra (length - base)
  let d := entryOf Deflate.distanceTable distance
  let (base, extra) := Deflate.distanceTable.getD d (0, 0)
  (putWord distanceCodes w d).putLow extra (distance - base)

/-- What deflate allows. -/
def limits : Repeat.Limits where
  minLength := 4
  maxLength := 258
  window := Deflate.windowSize
  literalTail := 0
  startTail := 4

/-- The data as one block with the fixed codes. -/
def coded (data : Bytes) : Bytes :=
  let w := (({} : BitWriter).putLow 1 1).putLow 2 1
  let w := (Repeat.sequences limits data).foldl
    (fun w s =>
      let w := putLiterals data s.literalLength s.literalStart w
      if s.length = 0 then w else putRepeat w s.length s.distance)
    w
  (putWord literalCodes w Deflate.endOfBlock).finishLow

/-- The stream for an effort. -/
def stream (effort : Nat) (data : Bytes) : Bytes :=
  if effort = 0 then stored data else coded data

/-- The header of a zlib member, which hints at the effort. -/
def zlibHeader (effort : Nat) : List UInt8 :=
  if effort ≤ 1 then [0x78, 0x01]
  else if effort ≤ 3 then [0x78, 0x5e]
  else if effort ≤ 8 then [0x78, 0x9c]
  else [0x78, 0xda]

/-- The header of a gzip member, which hints at the effort and names no system. -/
def gzipHeader (effort : Nat) : List UInt8 :=
  let hint := if effort ≤ 1 then 4 else if 9 ≤ effort then 2 else 0
  [0x1f, 0x8b, 8, 0, 0, 0, 0, 0, hint, 0xff]

/-- A whole member. -/
def member (p : DeflateParams) (data : Bytes) : Bytes :=
  let body := stream p.effort data
  match p.container with
  | .raw => body
  | .zlib =>
    Bytes.ofList (zlibHeader p.effort) ++ body ++
      Bytes.ofList (LittleEndian.digits 4 (Adler32.checksum data).toNat).reverse
  | .gzip =>
    Bytes.ofList (gzipHeader p.effort) ++ body ++
      LittleEndian.encode 4 (Crc32.reflected data).toNat ++ LittleEndian.encode 4 data.size

/-- The compressor for given parameters. -/
def encoder (p : DeflateParams) : Encoder := Encoder.ofWhole (member p)

end BlockUpdate.Deflater
