import BlockUpdate.Patch.Adapter
import BlockUpdate.Patch.Block
import BlockUpdate.Patch.Chunk

/-!
# Applying image patches

- `ImagePatch.apply`: the output of all chunks, in order; gives the number of bytes emitted.
- `ImagePatch.applyChunk`: the output of one chunk.
-/

namespace BlockUpdate.ImagePatch

/-- The bytes that begin an image patch. -/
def magic : Bytes := Bytes.ofText "PKGDIFF0"

/-- The window of the old image that a chunk is about. -/
def sourceWindow (old : Bytes) (w : Window) : Except PatchError Bytes :=
  match old.slice? w.start w.length with
  | some window => .ok window
  | none => .error (.outOfRange (.sourceWindow w.start w.length old.size))

/-- The block patch at an offset: all bytes from there on, of which there must be some. -/
def blockPatchAt (patch : Bytes) (offset : Nat) : Except PatchError Bytes :=
  if offset < patch.size then .ok (patch.dropFirst offset)
  else .error (.corruptHeader (.badPatchOffset offset patch.size))

/-- Patches the contents of a member and compresses the result. -/
def applyMember (P : Primitives) (patch : Bytes) (h : MemberHeader) (contents : Bytes)
    (A : Adapter) : Emit Nat := do
  let blockPatch ← Emit.ofExcept (blockPatchAt patch h.patchOffset)
  let restored ← A.recompress P (BlockPatch.apply P blockPatch contents).emission
  if restored.uncompressed ≠ h.targetSize then
    throw (.sizeMismatch h.targetSize restored.uncompressed)
  return restored.compressed

/-- The parameters that a deflate chunk is decoded and encoded with. -/
def effectiveParams (gzip : Bool) (params : DeflateParams) : DeflateParams :=
  if gzip ∨ params.container = .gzip then
    { params with windowBits := DeflateParams.gzipWindowBits }
  else params

/-- The output of one chunk; gives its size. -/
def applyChunk (P : Primitives) (patch old : Bytes) : Chunk → Emit Nat
  | .normal source patchOffset => do
    let window ← Emit.ofExcept (sourceWindow old source)
    let blockPatch ← Emit.ofExcept (blockPatchAt patch patchOffset)
    BlockPatch.apply P blockPatch window
  | .raw data => do
    emit data
    return data.size
  | .deflate gzip header params => do
    let params := effectiveParams gzip params
    let window ← Emit.ofExcept (sourceWindow old header.source)
    let contents ←
      Emit.ofExcept (Member.inflateExact P params.container window header.expandedSize)
    applyMember P patch header contents (Adapter.deflate P params)
  | .lz4 header params => do
    let window ← Emit.ofExcept (sourceWindow old header.source)
    let contents ← Emit.ofExcept (Member.unlz4Exact P params window header.expandedSize)
    applyMember P patch header contents (Adapter.lz4 P params)

/-- The output of `n` chunks whose headers follow the cursor; `written` bytes came before. -/
def applyChunks (P : Primitives) (patch old : Bytes) : Nat → Cursor → Nat → Emit Nat
  | 0, _, written => return written
  | n + 1, c, written => do
    let (chunk, c) ← Emit.ofExcept (Chunk.read c)
    let produced ← applyChunk P patch old chunk
    applyChunks P patch old n c (written + produced)

/-- The number of chunks, and the cursor behind it. -/
def readCount (patch : Bytes) : Except PatchError (Nat × Cursor) := do
  let (found, c) ← Cursor.bytes { data := patch } 8
  if found ≠ magic then
    throw (.corruptHeader .badImageMagic)
  c.unsigned 4

/-- Applies an image patch to an old image. -/
def apply (P : Primitives) (patch old : Bytes) : Emit Nat := do
  let (count, c) ← Emit.ofExcept (readCount patch)
  applyChunks P patch old count c 0

end BlockUpdate.ImagePatch
