import BlockUpdate.Patch.Generate
import BlockUpdate.Patch.Image

/-!
# Building image patches

A patch is assembled chunk by chunk, in the order of the new image; the block patches of all
chunks follow the chunk headers, in the same order.

- `ImageBuilder.normal`, `ImageBuilder.raw`, `ImageBuilder.deflate`, `ImageBuilder.lz4`: one more
  chunk.
- `ImageBuilder.build`: the patch.
-/

namespace BlockUpdate

/-- A part of the old image, from `start` to before `stop`. -/
structure SourceRange where
  start : Nat
  stop : Nat
  deriving Repr, DecidableEq

namespace SourceRange

/-- The window to diff against: an empty one if the range ends before it starts. -/
def window (r : SourceRange) : Window := ⟨r.start, r.stop - r.start⟩

/-- The length of a range, if it does not end before it starts. -/
def length? (r : SourceRange) : Option Nat :=
  if r.start ≤ r.stop then some (r.stop - r.start) else none

end SourceRange

/-- A chunk whose place in the patch is not known yet, with its block patch. -/
inductive PendingChunk
  | normal (source : SourceRange) (patch : Bytes)
  | raw (data : Bytes)
  | deflate (source : SourceRange) (expandedSize targetSize : Nat) (params : DeflateParams)
      (patch : Bytes)
  | lz4 (source : SourceRange) (expandedSize targetSize : Nat) (params : Lz4Params)
      (patch : Bytes)

namespace PendingChunk

/-- Size of the header. -/
def headerSize : PendingChunk → Nat
  | .normal .. => 28
  | .raw data => 8 + data.size
  | .deflate .. => 64
  | .lz4 .. => 68

/-- The block patch; a raw chunk has none. -/
def blockPatch : PendingChunk → Bytes
  | .normal _ patch | .deflate _ _ _ _ patch | .lz4 _ _ _ _ patch => patch
  | .raw _ => ByteArray.empty

/-- The chunk header, once the place of the block patch is known. A range that ends before it
starts has no length to write. -/
def place (offset : Nat) : PendingChunk → Option Chunk
  | .normal source _ => do
    return .normal ⟨source.start, ← source.length?⟩ offset
  | .raw data => return .raw data
  | .deflate source expanded target params _ => do
    return .deflate (params.container == .gzip)
      ⟨⟨source.start, ← source.length?⟩, offset, expanded, target⟩ params
  | .lz4 source expanded target params _ => do
    return .lz4 ⟨⟨source.start, ← source.length?⟩, offset, expanded, target⟩ params

end PendingChunk

/-- The chunks added so far. -/
structure ImageBuilder where
  chunks : List PendingChunk := []

namespace ImageBuilder

/-- Adds a chunk behind the others. -/
def add (b : ImageBuilder) (chunk : PendingChunk) : ImageBuilder := ⟨b.chunks ++ [chunk]⟩

/-- Adds a chunk that turns a part of the old image into `target`. -/
def normal (P : Primitives) (b : ImageBuilder) (old : Bytes) (source : SourceRange)
    (target : Bytes) : Except PatchError ImageBuilder := do
  let window ← ImagePatch.sourceWindow old source.window
  return b.add (.normal source (BlockPatch.generate P window target))

/-- Adds literal bytes. -/
def raw (b : ImageBuilder) (data : Bytes) : ImageBuilder := b.add (.raw data)

/-- Adds a deflate member of the old image whose new contents are `target`. -/
def deflate (P : Primitives) (b : ImageBuilder) (old : Bytes) (source : SourceRange)
    (params : DeflateParams) (target : Bytes) : Except PatchError ImageBuilder := do
  let window ← ImagePatch.sourceWindow old source.window
  let contents ← Member.inflate P params.container window none
  return b.add (.deflate source contents.size target.size params
    (BlockPatch.generate P contents target))

/-- Adds an lz4 member of the old image whose new contents are `target`. -/
def lz4 (P : Primitives) (b : ImageBuilder) (old : Bytes) (source : SourceRange)
    (params : Lz4Params) (target : Bytes) : Except PatchError ImageBuilder := do
  let window ← ImagePatch.sourceWindow old source.window
  let contents ← Member.unlz4 P params window none
  return b.add (.lz4 source contents.size target.size params
    (BlockPatch.generate P contents target))

/-- Size of the magic, the count and all chunk headers. -/
def headersSize (chunks : List PendingChunk) : Nat :=
  12 + (chunks.map PendingChunk.headerSize).sum

/-- The chunk headers, whose block patches begin at `offset`. -/
def placeAll : Nat → List PendingChunk → Option (List Chunk)
  | _, [] => some []
  | offset, chunk :: rest => do
    let placed ← chunk.place offset
    return placed :: (← placeAll (offset + chunk.blockPatch.size) rest)

/-- The patch: magic, count, chunk headers, block patches. There is none if the range of a chunk
ends before it starts. -/
def build (b : ImageBuilder) : Option Bytes := do
  let placed ← placeAll (headersSize b.chunks) b.chunks
  return ImagePatch.magic ++ LittleEndian.encode 4 b.chunks.length ++
    Bytes.join (placed.map Chunk.encode) ++ Bytes.join (b.chunks.map PendingChunk.blockPatch)

end ImageBuilder

end BlockUpdate
