import BlockUpdate.Codec.Repeat
import BlockUpdate.Codec.Stream
import BlockUpdate.Digest.Checksum

/-!
# LZ4

- `Lz4.Block`: single blocks, a sequence of literal runs and repeats.
- `Lz4.Frame`: the standard framing of blocks.
- `Lz4Params`: the parameters recorded with a member, which choose between the standard framing
  and the legacy one.
-/

namespace BlockUpdate

/-! ## Parameters -/

/-- Parameters recorded with an lz4 member. -/
structure Lz4Params where
  compressionLevel : Int
  /-- The magic number of the legacy framing selects it; anything else is the standard one. -/
  method : Int
  blockIndependence : Int
  contentChecksum : Int
  blockSizeId : Int
  autoFlush : Int
  deriving Repr, DecidableEq

namespace Lz4Params

/-- Magic number of the legacy framing. -/
def legacyMagic : Nat := 0x184c2102

/-- The standard framing with independent blocks of 64 KiB. -/
def frame : Lz4Params where
  compressionLevel := 0
  method := 0
  blockIndependence := 1
  contentChecksum := 0
  blockSizeId := 4
  autoFlush := 0

/-- The legacy framing. -/
def legacy : Lz4Params := { frame with method := (legacyMagic : Int) }

/-- Whether the parameters select the legacy framing. -/
def isLegacy (p : Lz4Params) : Bool := p.method == (legacyMagic : Int)

/-- The size code of the blocks: four to seven, and four for anything else. -/
def sizeCode (p : Lz4Params) : Nat :=
  if p.blockSizeId = 5 then 5
  else if p.blockSizeId = 6 then 6
  else if p.blockSizeId = 7 then 7
  else 4

end Lz4Params

namespace Lz4

/-! ## Blocks -/

namespace Block

/-- A length of fifteen or more goes on in further bytes, up to one that is not 255. -/
def extension (data : Bytes) (i acc : Nat) : Option (Nat × Nat) :=
  if i < data.size then
    let b := (data.get! i).toNat
    if b = 255 then extension data (i + 1) (acc + b) else some (acc + b, i + 1)
  else none
termination_by data.size - i

/-- A length whose four low bits are in a token. -/
def lengthAt (data : Bytes) (nibble i : Nat) : Option (Nat × Nat) :=
  if nibble = 15 then extension data i 15 else some (nibble, i)

/-- Appends `n` bytes that start `distance` before the end; a distance of zero gives zeros. -/
def copyBack (distance : Nat) : Nat → Bytes → Bytes
  | 0, out => out
  | n + 1, out =>
    copyBack distance n
      (out.push (if distance = 0 then 0 else out.get! (out.size - distance)))

/-- Decodes the sequences from `i` on. Repeats reach back to `floor` at most and the output may
not pass `ceiling`. -/
def decodeFrom (data : Bytes) (floor ceiling : Nat) : Nat → Nat → Bytes → Option Bytes
  | 0, _, _ => none
  | fuel + 1, i, out => do
    if data.size ≤ i then
      none
    else
      let token := (data.get! i).toNat
      let (literals, i) ← lengthAt data (token / 16) (i + 1)
      if data.size < i + literals ∨ ceiling < out.size + literals then
        none
      else
        let out := out ++ data.extract i (i + literals)
        let i := i + literals
        if i = data.size then
          some out
        else if data.size < i + 2 then
          none
        else
          let distance := (data.get! i).toNat + 256 * (data.get! (i + 1)).toNat
          let (extra, i) ← lengthAt data (token % 16) (i + 2)
          let length := extra + 4
          if out.size < floor + distance ∨ ceiling < out.size + length then
            none
          else
            decodeFrom data floor ceiling fuel i (copyBack distance length out)

/-- Decodes a block behind earlier output, adding at most `limit` bytes. -/
def decodeInto (data : Bytes) (floor limit : Nat) (out : Bytes) : Option Bytes :=
  decodeFrom data floor (out.size + limit) (data.size + 1) 0 out

/-- Decodes a block of its own of at most `limit` bytes. -/
def decode (limit : Nat) (data : Bytes) : Option Bytes :=
  decodeInto data 0 limit ByteArray.empty

/-- What the block format allows. -/
def limits : Repeat.Limits where
  minLength := 4
  maxLength := 2 ^ 32
  window := 65535
  literalTail := 5
  startTail := 13

/-- The further bytes of a length of fifteen or more, given what exceeds fifteen. -/
def extensionBytes (n : Nat) : List UInt8 :=
  List.replicate (n / 255) 255 ++ [UInt8.ofNat (n % 255)]

/-- The further bytes of a length, if it needs any. -/
def extensionOf (n : Nat) : Bytes :=
  if n < 15 then ByteArray.empty else Bytes.ofList (extensionBytes (n - 15))

/-- One sequence; the last one of a block has literals only. -/
def putSequence (data : Bytes) (out : Bytes) (s : Repeat.Sequence) : Bytes :=
  let literals := data.extract s.literalStart (s.literalStart + s.literalLength)
  if s.length = 0 then
    out.push (UInt8.ofNat (16 * min 15 s.literalLength)) ++ extensionOf s.literalLength ++ literals
  else
    let extra := s.length - 4
    out.push (UInt8.ofNat (16 * min 15 s.literalLength + min 15 extra)) ++
      extensionOf s.literalLength ++ literals ++ LittleEndian.encode 2 s.distance ++
      extensionOf extra

/-- Compresses a block. -/
def encode (data : Bytes) : Bytes :=
  (Repeat.sequences limits data).foldl (putSequence data) ByteArray.empty

end Block

/-! ## Frames -/

namespace Frame

/-- Magic number of the standard framing. -/
def magic : Nat := 0x184d2204

/-- What a frame header says. -/
structure Header where
  independent : Bool
  blockChecksums : Bool
  contentChecksum : Bool
  contentSize : Option Nat
  maxBlock : Nat
  /-- Offset of the first block. -/
  size : Nat

/-- The largest block for a size code. -/
def maxBlockOf (code : Nat) : Nat := 2 ^ (8 + 2 * code)

/-- The header that begins the data. Dictionaries are not supported. -/
def header? (data : Bytes) : Option Header := do
  if (← LittleEndian.read? data 0 4) = Lz4Params.legacyMagic then
    return ⟨true, false, false, none, 2 ^ 23, 4⟩
  let flags ← LittleEndian.read? data 4 1
  let sizes ← LittleEndian.read? data 5 1
  let code := sizes / 16 % 8
  let hasSize := flags / 8 % 2 = 1
  let size := if hasSize then 15 else 7
  guard ((← LittleEndian.read? data 0 4) = magic)
  guard (flags / 64 = 1 ∧ flags / 2 % 2 = 0 ∧ flags % 2 = 0)
  guard (sizes / 128 = 0 ∧ sizes % 16 = 0 ∧ 4 ≤ code)
  let fields ← data.slice? 4 (size - 5)
  let checksum ← LittleEndian.read? data (size - 1) 1
  guard ((XxHash32.hash fields).toNat / 256 % 256 = checksum)
  return {
    independent := flags / 32 % 2 = 1
    blockChecksums := flags / 16 % 2 = 1
    contentChecksum := flags / 4 % 2 = 1
    contentSize := if hasSize then LittleEndian.read? data 6 8 else none
    maxBlock := maxBlockOf code
    size }

/-- Whether the end of the frame at `i` confirms the content. -/
def endHolds (h : Header) (data : Bytes) (i : Nat) (out : Bytes) : Bool :=
  (match h.contentSize with
    | some n => n == out.size
    | none => true) &&
  (!h.contentChecksum || LittleEndian.read? data i 4 == some (XxHash32.hash out).toNat)

/-- The block of the given size field, whose data begins at `i`. -/
def block? (h : Header) (data : Bytes) (field i : Nat) (out : Bytes) : Option (Bytes × Nat) := do
  let length := field % 2 ^ 31
  guard (length ≤ h.maxBlock)
  let body ← data.slice? i length
  let i := i + length
  let i ←
    if h.blockChecksums then do
      guard ((← LittleEndian.read? data i 4) = (XxHash32.hash body).toNat)
      some (i + 4)
    else some i
  if field < 2 ^ 31 then
    let floor := if h.independent then out.size else 0
    return (← Block.decodeInto body floor h.maxBlock out, i)
  else
    return (out ++ body, i)

/-- Blocks from `i` on, up to the end mark or the end of the data. -/
def blocks (h : Header) (data : Bytes) : Nat → Nat → Bytes → Decoded
  | 0, _, out => ⟨out, true⟩
  | fuel + 1, i, out =>
    match LittleEndian.read? data i 4 with
    | none => ⟨out, false⟩
    | some 0 => ⟨out, !endHolds h data (i + 4) out⟩
    | some field =>
      match block? h data field (i + 4) out with
      | none => ⟨out, true⟩
      | some (out, i) => blocks h data fuel i out

/-- Decodes a frame. Data without a header, because it ends before one or right after four bytes
of another magic number, holds no frame and so no bytes. -/
def decode (data : Bytes) : Decoded :=
  match header? data with
  | some h => blocks h data (data.size + 1) h.size ByteArray.empty
  | none => ⟨ByteArray.empty, data.size ≠ 0 && data.size ≠ 4⟩

/-! ### Writing -/

/-- The compressor's state: whether the header is out, the data of the block under way, and all
content so far. -/
structure Writer where
  opened : Bool
  block : Bytes
  content : Bytes

/-- The header for given parameters. -/
def headerBytes (p : Lz4Params) : Bytes :=
  let flags := 0x40 + (if p.blockIndependence ≠ 0 then 0x20 else 0) +
    (if p.contentChecksum ≠ 0 then 4 else 0)
  let fields := Bytes.ofList [UInt8.ofNat flags, UInt8.ofNat (16 * p.sizeCode)]
  LittleEndian.encode 4 magic ++ fields ++
    Bytes.ofList [UInt8.ofNat ((XxHash32.hash fields).toNat / 256 % 256)]

/-- A block, stored if compression does not shrink it. -/
def blockBytes (data : Bytes) : Bytes :=
  let packed := Block.encode data
  if packed.size < data.size then LittleEndian.encode 4 packed.size ++ packed
  else LittleEndian.encode 4 (2 ^ 31 + data.size) ++ data

/-- Adds data from `i` on, writing out each block once it is full and more data follows. -/
def fill (maxBlock : Nat) (data : Bytes) : Nat → Nat → Bytes → Bytes → Bytes × Bytes
  | 0, _, block, out => (block, out)
  | fuel + 1, i, block, out =>
    if data.size ≤ i then (block, out)
    else if maxBlock ≤ block.size then
      fill maxBlock data fuel i ByteArray.empty (out ++ blockBytes block)
    else
      let n := min (maxBlock - block.size) (data.size - i)
      fill maxBlock data fuel (i + n) (block ++ data.extract i (i + n)) out

/-- One write. -/
def write (p : Lz4Params) (w : Writer) (piece : Bytes) : Writer × Bytes :=
  if piece.size = 0 then (w, ByteArray.empty)
  else
    let start := if w.opened then ByteArray.empty else headerBytes p
    let (block, out) :=
      fill (maxBlockOf p.sizeCode) piece (2 * piece.size + 2) 0 w.block start
    (⟨true, block, w.content ++ piece⟩, out)

/-- The end of a frame: the block under way, the end mark and the checksum of the content. -/
def finish (p : Lz4Params) (w : Writer) : Bytes :=
  (if w.opened then ByteArray.empty else headerBytes p) ++
    (if w.block.size = 0 then ByteArray.empty else blockBytes w.block) ++
    LittleEndian.encode 4 0 ++
    (if p.contentChecksum ≠ 0 then LittleEndian.encode 4 (XxHash32.hash w.content).toNat
    else ByteArray.empty)

/-- The frame compressor for given parameters. -/
def encoder (p : Lz4Params) : Encoder where
  State := Writer
  start := ⟨false, ByteArray.empty, ByteArray.empty⟩
  write := write p
  finish := finish p

end Frame

end Lz4

end BlockUpdate
