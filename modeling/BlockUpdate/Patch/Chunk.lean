import BlockUpdate.Codec.Deflate
import BlockUpdate.Codec.Lz4
import BlockUpdate.Patch.Field

/-!
# Chunks of an image patch

An image patch is a list of chunks, each of which makes the next part of the new image:

- *normal*: a block patch against a window of the old image,
- *raw*: literal bytes,
- *deflate* and *lz4*: a block patch against the contents of a compressed member of the old
  image, whose result is compressed again.

This module holds the chunk headers and their layout, in both directions.
-/

namespace BlockUpdate

/-- A window of the old image. -/
structure Window where
  start : Nat
  length : Nat
  deriving Repr, DecidableEq

/-- What all chunks about compressed members say. -/
structure MemberHeader where
  source : Window
  /-- Where the block patch begins in the image patch. -/
  patchOffset : Nat
  /-- Size of the old contents. -/
  expandedSize : Nat
  /-- Size of the new contents. -/
  targetSize : Nat
  deriving Repr, DecidableEq

/-- The header of one chunk. -/
inductive Chunk
  | normal (source : Window) (patchOffset : Nat)
  | raw (data : Bytes)
  /-- A deflate member; `gzip` chunks use that container whatever their parameters say. -/
  | deflate (gzip : Bool) (header : MemberHeader) (params : DeflateParams)
  | lz4 (header : MemberHeader) (params : Lz4Params)

namespace Chunk

/-- The number that stands for a kind of chunk. -/
def kindNumber : Chunk → Nat
  | .normal .. => 0
  | .deflate true .. => 1
  | .deflate false .. => 2
  | .raw .. => 3
  | .lz4 .. => 4

/-! ## Reading -/

/-- A window. -/
def readWindow (c : Cursor) : Except PatchError (Window × Cursor) := do
  let (start, c) ← c.unsigned 8
  let (length, c) ← c.unsigned 8
  return (⟨start, length⟩, c)

/-- The common part of member chunks. -/
def readMember (c : Cursor) : Except PatchError (MemberHeader × Cursor) := do
  let (source, c) ← readWindow c
  let (patchOffset, c) ← c.unsigned 8
  let (expandedSize, c) ← c.unsigned 8
  let (targetSize, c) ← c.unsigned 8
  return (⟨source, patchOffset, expandedSize, targetSize⟩, c)

/-- The parameters of a deflate member. -/
def readDeflate (c : Cursor) : Except PatchError (DeflateParams × Cursor) := do
  let (level, c) ← c.signed32
  let (method, c) ← c.signed32
  let (windowBits, c) ← c.signed32
  let (memLevel, c) ← c.signed32
  let (strategy, c) ← c.signed32
  return (⟨level, method, windowBits, memLevel, strategy⟩, c)

/-- The parameters of an lz4 member. -/
def readLz4 (c : Cursor) : Except PatchError (Lz4Params × Cursor) := do
  let (compressionLevel, c) ← c.signed32
  let (method, c) ← c.signed32
  let (blockIndependence, c) ← c.signed32
  let (contentChecksum, c) ← c.signed32
  let (blockSizeId, c) ← c.signed32
  let (autoFlush, c) ← c.signed32
  return (⟨compressionLevel, method, blockIndependence, contentChecksum, blockSizeId, autoFlush⟩,
    c)

/-- The next chunk header. -/
def read (c : Cursor) : Except PatchError (Chunk × Cursor) := do
  let (kind, c) ← c.unsigned 4
  match kind with
  | 0 =>
    let (source, c) ← readWindow c
    let (patchOffset, c) ← c.unsigned 8
    return (.normal source patchOffset, c)
  | 1 | 2 =>
    let (header, c) ← readMember c
    let (params, c) ← readDeflate c
    return (.deflate (kind == 1) header params, c)
  | 3 =>
    let (length, c) ← c.unsigned 4
    let (data, c) ← c.bytes length
    return (.raw data, c)
  | 4 =>
    let (header, c) ← readMember c
    let (params, c) ← readLz4 c
    return (.lz4 header params, c)
  | other => throw (.corruptHeader (.unknownChunk other))

/-- The next `n` chunk headers. -/
def readAll : Nat → Cursor → Except PatchError (List Chunk × Cursor)
  | 0, c => return ([], c)
  | n + 1, c => do
    let (chunk, c) ← read c
    let (rest, c) ← readAll n c
    return (chunk :: rest, c)

/-! ## Writing -/

/-- Eight-byte numbers, one after the other. -/
def encodeWords (values : List Nat) : Bytes := Bytes.join (values.map (LittleEndian.encode 8))

/-- The parameters of a deflate member, in their stored order. -/
def deflateFields (p : DeflateParams) : List Int :=
  [p.level, p.method, p.windowBits, p.memLevel, p.strategy]

/-- The parameters of an lz4 member, in their stored order. -/
def lz4Fields (p : Lz4Params) : List Int :=
  [p.compressionLevel, p.method, p.blockIndependence, p.contentChecksum, p.blockSizeId,
    p.autoFlush]

/-- Signed parameters, one after the other. -/
def encodeFields (values : List Int) : Bytes := Bytes.join (values.map Word32.encode)

/-- The common part of member chunks. -/
def encodeMember (h : MemberHeader) : Bytes :=
  encodeWords [h.source.start, h.source.length, h.patchOffset, h.expandedSize, h.targetSize]

/-- The bytes of a chunk header. -/
def encode (chunk : Chunk) : Bytes :=
  LittleEndian.encode 4 chunk.kindNumber ++
    match chunk with
    | .normal source patchOffset => encodeWords [source.start, source.length, patchOffset]
    | .raw data => LittleEndian.encode 4 data.size ++ data
    | .deflate _ header params => encodeMember header ++ encodeFields (deflateFields params)
    | .lz4 header params => encodeMember header ++ encodeFields (lz4Fields params)

end Chunk

end BlockUpdate
