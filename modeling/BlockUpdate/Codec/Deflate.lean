import BlockUpdate.Codec.Huffman
import BlockUpdate.Codec.Stream
import BlockUpdate.Digest.Checksum

/-!
# Deflate, zlib and gzip

- `Deflate.decode`: inflates a member in one of the three containers.
- `DeflateParams`: the tuning parameters recorded with a member, and the container they select.

A corrupt stream yields what precedes the window of 32 KiB in which it breaks; a stream that is
cut off yields everything up to the cut.
-/

namespace BlockUpdate

/-- Framing around a deflate stream. -/
inductive DeflateContainer
  | raw
  | zlib
  | gzip
  deriving Repr, DecidableEq

/-- Tuning parameters recorded with a deflate member. -/
structure DeflateParams where
  level : Int
  method : Int
  windowBits : Int
  memLevel : Int
  strategy : Int
  deriving Repr, DecidableEq

namespace DeflateParams

/-- Raw deflate, as stored in zip members. -/
def raw (level : Int) : DeflateParams where
  level
  method := 8
  windowBits := -15
  memLevel := 8
  strategy := 0

/-- Window bits that stand for gzip framing. -/
def gzipWindowBits : Int := 31

/-- gzip framing. -/
def gzip (level : Int) : DeflateParams := { raw level with windowBits := gzipWindowBits }

/-- Negative window bits mean raw deflate, above fifteen they mean gzip. -/
def container (p : DeflateParams) : DeflateContainer :=
  if p.windowBits < 0 then .raw
  else if 15 < p.windowBits then .gzip
  else .zlib

/-- The effort of the compressor: six if none is given, and nine at most. -/
def effort (p : DeflateParams) : Nat :=
  if p.level < 0 then 6 else min p.level.toNat 9

end DeflateParams

namespace Deflate

/-! ## Tables of the format -/

/-- Smallest length and number of extra bits for the length symbols 257 to 285. -/
def lengthTable : Array (Nat × Nat) := #[
  (3, 0), (4, 0), (5, 0), (6, 0), (7, 0), (8, 0), (9, 0), (10, 0), (11, 1), (13, 1), (15, 1),
  (17, 1), (19, 2), (23, 2), (27, 2), (31, 2), (35, 3), (43, 3), (51, 3), (59, 3), (67, 4),
  (83, 4), (99, 4), (115, 4), (131, 5), (163, 5), (195, 5), (227, 5), (258, 0)]

/-- Smallest distance and number of extra bits for the distance symbols. -/
def distanceTable : Array (Nat × Nat) := #[
  (1, 0), (2, 0), (3, 0), (4, 0), (5, 1), (7, 1), (9, 2), (13, 2), (17, 3), (25, 3), (33, 4),
  (49, 4), (65, 5), (97, 5), (129, 6), (193, 6), (257, 7), (385, 7), (513, 8), (769, 8),
  (1025, 9), (1537, 9), (2049, 10), (3073, 10), (4097, 11), (6145, 11), (8193, 12),
  (12289, 12), (16385, 13), (24577, 13)]

/-- The order in which the lengths of the length code are stored. -/
def lengthOrder : List Nat :=
  [16, 17, 18, 0, 8, 7, 9, 6, 10, 5, 11, 4, 12, 3, 13, 2, 14, 1, 15]

/-- Word lengths of the fixed literal code. -/
def fixedLiteralLengths : List Nat :=
  List.replicate 144 8 ++ List.replicate 112 9 ++ List.replicate 24 7 ++ List.replicate 8 8

/-- Word lengths of the fixed distance code. -/
def fixedDistanceLengths : List Nat := List.replicate 32 5

/-- The symbol that ends a block. -/
def endOfBlock : Nat := 256

/-- The longest word of a code. -/
def longestWord : Nat := 15

/-- Size of the window that matches refer to. -/
def windowSize : Nat := 32768

/-! ## Blocks -/

/-- Copies `n` stored bytes. -/
def storedBytes : Nat → Decoder Unit
  | 0 => return
  | n + 1 => do
    Decoder.push (← Decoder.byte)
    storedBytes n

/-- A stored block: length, its complement, bytes. -/
def storedBlock : Decoder Unit := do
  Decoder.alignByte
  let length ← Decoder.bytesLow 2
  let check ← Decoder.bytesLow 2
  if length + check ≠ 0xffff then
    throw .corrupt
  storedBytes length

/-- Literals and matches up to the end of a block. Every round reads at least one bit, so `fuel`
bits suffice. -/
def symbols (literals distances : Huffman) : Nat → Decoder Unit
  | 0 => throw .truncated
  | fuel + 1 => do
    let s ← literals.symbol Decoder.lowBit
    if s < endOfBlock then
      Decoder.push (UInt8.ofNat s)
      symbols literals distances fuel
    else if s = endOfBlock then
      return
    else
      let some (base, extra) := lengthTable[s - 257]?
        | throw .corrupt
      let length := base + (← Decoder.lowBits extra)
      let some (base, extra) := distanceTable[(← distances.symbol Decoder.lowBit)]?
        | throw .corrupt
      let distance := base + (← Decoder.lowBits extra)
      Decoder.copyBack distance length
      symbols literals distances fuel

/-- The word lengths of the two codes of a dynamic block, written with the length code. -/
def codeLengths (code : Huffman) (total : Nat) : Nat → List Nat → Decoder (List Nat)
  | 0, _ => throw .corrupt
  | fuel + 1, reversed => do
    if total ≤ reversed.length then
      if reversed.length = total then return reversed.reverse else throw .corrupt
    else
      let s ← code.symbol Decoder.lowBit
      if s < 16 then
        codeLengths code total fuel (s :: reversed)
      else if s = 16 then
        match reversed with
        | [] => throw .corrupt
        | last :: _ =>
          let n := 3 + (← Decoder.lowBits 2)
          codeLengths code total fuel (List.replicate n last ++ reversed)
      else
        let n ← if s = 17 then (3 + ·) <$> Decoder.lowBits 3 else (11 + ·) <$> Decoder.lowBits 7
        codeLengths code total fuel (List.replicate n 0 ++ reversed)

/-- The lengths of the length code, in their stored order. -/
def orderedLengths : Nat → Decoder (List Nat)
  | 0 => return []
  | n + 1 => do
    let l ← Decoder.lowBits 3
    return l :: (← orderedLengths n)

/-- A block with its own codes. -/
def dynamicBlock (fuel : Nat) : Decoder Unit := do
  let literalCount := 257 + (← Decoder.lowBits 5)
  let distanceCount := 1 + (← Decoder.lowBits 5)
  let orderCount := 4 + (← Decoder.lowBits 4)
  if 286 < literalCount ∨ 30 < distanceCount then
    throw .corrupt
  let stored := (lengthOrder.zip (← orderedLengths orderCount))
  let code := Huffman.ofLengths longestWord ((List.range 19).map fun s => (stored.lookup s).getD 0)
  if ¬ code.isUsable then
    throw .corrupt
  let lengths ← codeLengths code (literalCount + distanceCount) 400 []
  let literals := Huffman.ofLengths longestWord (lengths.take literalCount)
  let distances := Huffman.ofLengths longestWord (lengths.drop literalCount)
  if ¬ literals.isUsable ∨ ¬ distances.isUsable then
    throw .corrupt
  symbols literals distances fuel

/-- Blocks up to the one marked as the last. -/
def blocks (bits : Nat) : Nat → Decoder Unit
  | 0 => throw .truncated
  | fuel + 1 => do
    let final ← Decoder.lowBit
    match ← Decoder.lowBits 2 with
    | 0 => storedBlock
    | 1 =>
      symbols (Huffman.ofLengths longestWord fixedLiteralLengths)
        (Huffman.ofLengths longestWord fixedDistanceLengths) bits
    | 2 => dynamicBlock bits
    | _ => throw .corrupt
    if final = 1 then return else blocks bits fuel

/-- A whole deflate stream. -/
def rawStream : Decoder Unit := do
  let bits := 8 * (← get).input.size + 1
  blocks bits bits

/-! ## Containers -/

/-- A zlib member: header, stream, checksum of the output. -/
def zlibStream : Decoder Unit := do
  let method ← Decoder.byte
  let flags ← Decoder.byte
  let m := method.toNat
  let f := flags.toNat
  if (256 * m + f) % 31 ≠ 0 ∨ f / 32 % 2 = 1 ∨ m % 16 ≠ 8 ∨ 7 < m / 16 then
    throw .corrupt
  rawStream
  Decoder.alignByte
  let c3 ← Decoder.byte
  let c2 ← Decoder.byte
  let c1 ← Decoder.byte
  let c0 ← Decoder.byte
  let stored := ((c3.toNat * 256 + c2.toNat) * 256 + c1.toNat) * 256 + c0.toNat
  if (Adler32.checksum (← get).output).toNat ≠ stored then
    throw .corrupt

/-- Skips bytes up to and including a zero. -/
def skipText : Nat → Decoder Unit
  | 0 => throw .truncated
  | fuel + 1 => do
    if (← Decoder.byte) = 0 then return else skipText fuel

/-- Skips `n` bytes. -/
def skipBytes : Nat → Decoder Unit
  | 0 => return
  | n + 1 => do
    let _ ← Decoder.byte
    skipBytes n

/-- The header of a gzip member, with its optional fields and checksum. -/
def gzipHeader : Decoder Unit := do
  let size := (← get).input.size
  let magic ← Decoder.bytesLow 2
  let method ← Decoder.byte
  let flags := (← Decoder.byte).toNat
  skipBytes 6
  if magic ≠ 0x8b1f ∨ method ≠ 8 ∨ 32 ≤ flags then
    throw .corrupt
  if flags / 4 % 2 = 1 then
    skipBytes (← Decoder.bytesLow 2)
  if flags / 8 % 2 = 1 then
    skipText (size + 1)
  if flags / 16 % 2 = 1 then
    skipText (size + 1)
  if flags / 2 % 2 = 1 then
    let r ← get
    let header := r.input.takeFirst (r.position / 8)
    if (Crc32.reflected header).toNat % 65536 ≠ (← Decoder.bytesLow 2) then
      throw .corrupt

/-- The trailer of a gzip member: checksum and size of the output. -/
def gzipTrailer : Decoder Unit := do
  Decoder.alignByte
  let checksum ← Decoder.bytesLow 4
  let size ← Decoder.bytesLow 4
  let output := (← get).output
  if (Crc32.reflected output).toNat ≠ checksum ∨ output.size % 2 ^ 32 ≠ size then
    throw .corrupt

/-- What can be read of a deflate stream that breaks: a corrupt one loses the window under way. -/
def readable (fault : StreamFault) (output : Bytes) : Bytes :=
  match fault with
  | .truncated => output
  | .corrupt => output.takeFirst (output.size / windowSize * windowSize)

/-- Inflates a member. The checksum of a gzip member is looked at only behind its last byte, so
all of its bytes can be read even if it is wrong. -/
def decode (container : DeflateContainer) (data : Bytes) : Decoded :=
  match container with
  | .raw => ofResult (Decoder.start rawStream data)
  | .zlib => ofResult (Decoder.start zlibStream data)
  | .gzip =>
    match Decoder.start gzipHeader data with
    | .error _ r => ⟨r.output, true⟩
    | .ok _ r =>
      match rawStream.run r with
      | .error fault r => ⟨readable fault r.output, true⟩
      | .ok _ r =>
        match gzipTrailer.run r with
        | .error _ r => ⟨r.output, true⟩
        | .ok _ r => ⟨r.output, false⟩
where
  ofResult : EStateM.Result StreamFault BitReader Unit → Decoded
    | .ok _ r => ⟨r.output, false⟩
    | .error fault r => ⟨readable fault r.output, true⟩

end Deflate

end BlockUpdate
