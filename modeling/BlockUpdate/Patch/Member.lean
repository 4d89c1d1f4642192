import BlockUpdate.Patch.Field
import BlockUpdate.Primitives

/-!
# Expanding compressed members

A member is a piece of an image that holds compressed data in a container of its own.

- `Member.bounded`: what a reader gets of a decoded stream when it gives up one byte past a limit.
- `Member.inflate`, `Member.unlz4`: the contents of a member, up to a limit if one is given.
- `Member.inflateExact`, `Member.unlz4Exact`: the contents, which must have the given size.
-/

namespace BlockUpdate.Member

/-- Reads a stream to its end, or to one byte past the limit if it is longer than that. An error
behind that byte is not met. -/
def bounded (stage : CodecStage) (limit : Option Nat) (d : Decoded) : Except PatchError Bytes :=
  match limit with
  | some n =>
    if n < d.bytes.size then .error (.sizeMismatch n (n + 1))
    else if d.failed then .error (.codec stage)
    else .ok d.bytes
  | none => if d.failed then .error (.codec stage) else .ok d.bytes

/-- Requires a size. -/
def exactly (size : Nat) (data : Bytes) : Except PatchError Bytes :=
  if data.size = size then .ok data else .error (.sizeMismatch size data.size)

/-! ## The deflate family -/

/-- The contents of a deflate member. -/
def inflate (P : Primitives) (container : DeflateContainer) (data : Bytes) (limit : Option Nat) :
    Except PatchError Bytes :=
  bounded .inflate limit (P.inflate container data)

/-- The contents of a deflate member of known size. -/
def inflateExact (P : Primitives) (container : DeflateContainer) (data : Bytes) (size : Nat) :
    Except PatchError Bytes := do
  exactly size (← inflate P container data (some size))

/-! ## LZ4 -/

/-- Uncompressed size of a full block of the legacy framing. -/
def legacyBlock : Nat := 8 * 1024 * 1024

/-- Expands the records from a cursor on, each a size and a block; the limit is looked at after
each block. -/
def legacyRecords (P : Primitives) (limit : Option Nat) :
    Nat → Cursor → Bytes → Except PatchError Bytes
  | 0, _, out => .ok out
  | fuel + 1, c, out => do
    if c.atEnd then
      return out
    let (size, c) ← c.unsigned 4
    let (block, c) ← c.bytes size
    let some piece := P.unlz4Block legacyBlock block
      | throw (.codec .lz4LegacyBlock)
    let out := out ++ piece
    if let some n := limit then
      if n < out.size then
        throw (.sizeMismatch n out.size)
    legacyRecords P limit fuel c out

/-- The contents of a member in the legacy framing. Offsets in errors count from behind the magic
number, except that of the magic number itself. -/
def unlz4Legacy (P : Primitives) (data : Bytes) (limit : Option Nat) :
    Except PatchError Bytes := do
  let magic ← Field.read 4 data 0
  if magic ≠ Lz4Params.legacyMagic then
    throw (.corruptHeader (.badLegacyMagic magic))
  let records := data.dropFirst 4
  legacyRecords P limit (records.size + 1) { data := records } ByteArray.empty

/-- The contents of an lz4 member in the framing that its parameters select. -/
def unlz4 (P : Primitives) (params : Lz4Params) (data : Bytes) (limit : Option Nat) :
    Except PatchError Bytes :=
  if params.isLegacy then unlz4Legacy P data limit
  else bounded .lz4Frame limit (P.unlz4 data)

/-- The contents of an lz4 member of known size. -/
def unlz4Exact (P : Primitives) (params : Lz4Params) (data : Bytes) (size : Nat) :
    Except PatchError Bytes := do
  exactly size (← unlz4 P params data (some size))

end BlockUpdate.Member
