import BlockUpdate.Patch.Emission
import BlockUpdate.Patch.Member

/-!
# Compressing on the way out

An adapter sits in front of a receiver and hands compressed data over as it accumulates. It is
opened, written to, flushed and closed; a write or a flush reaches nothing unless the adapter is
open.

- `Adapter`: the operations of an adapter.
- `Adapter.ofEncoder`: in front of a streaming compressor.
- `Adapter.lz4Legacy`: the legacy lz4 framing, which cuts its input into blocks of 8 MiB.
- `Adapter.recompress`: passes a whole emission through an adapter and counts both sides.
-/

namespace BlockUpdate

/-- The operations of a compressing adapter. An operation that fails leaves the state as it was. -/
structure Adapter where
  State : Type
  initial : State
  /-- The state after opening, whatever came before. -/
  opened : State → State
  /-- Takes data; hands over what has accumulated once it passes the threshold. -/
  write : State → Bytes → Emit State
  /-- Ends the stream and hands over the rest; gives the size of everything handed over since the
  adapter was opened. -/
  flush : State → Emit (Nat × State)
  close : State → State

namespace Adapter

/-- Accumulated output is handed over from this size on. -/
def drainThreshold : Nat := 256 * 1024

/-- Hands over what has accumulated, if there is any; gives its size. -/
def drain (pending : Bytes) : Emit Nat := do
  if pending.size ≠ 0 then
    emit pending
  return pending.size

/-! ## In front of a streaming compressor -/

/-- The state of an adapter in front of a compressor: while it is open, the compressor's state and
its output that was not handed over yet. -/
structure StreamState (E : Encoder) where
  stream : Option (E.State × Bytes)
  emitted : Nat

/-- The adapter in front of a compressor; errors call it by the given name. -/
def ofEncoder (name : String) (E : Encoder) : Adapter where
  State := StreamState E
  initial := ⟨none, 0⟩
  opened _ := ⟨some (E.start, ByteArray.empty), 0⟩
  write a data := do
    let some (s, pending) := a.stream
      | throw (.codec (.notOpen name))
    let (s, ready) := E.write s data
    let pending := pending ++ ready
    if drainThreshold ≤ pending.size then
      let n ← drain pending
      return ⟨some (s, ByteArray.empty), a.emitted + n⟩
    else
      return ⟨some (s, pending), a.emitted⟩
  flush a := do
    let some (s, pending) := a.stream
      | throw (.codec (.notOpen name))
    let n ← drain (pending ++ E.finish s)
    return (a.emitted + n, ⟨none, a.emitted + n⟩)
  close a := { a with stream := none }

/-- The adapter that compresses to deflate. -/
def deflate (P : Primitives) (params : DeflateParams) : Adapter :=
  ofEncoder "deflate" (P.deflater params)

/-- The adapter that compresses to standard lz4 frames. -/
def lz4Frame (P : Primitives) (params : Lz4Params) : Adapter :=
  ofEncoder "lz4" (P.lz4er params)

/-! ## Legacy lz4 framing -/

/-- The state of the legacy adapter. -/
structure LegacyState where
  /-- Output that was not handed over yet. -/
  pending : Bytes
  /-- Input that does not fill a block yet. -/
  input : Bytes
  emitted : Nat
  isOpen : Bool

/-- A record: the size of a compressed block, and the block. -/
def legacyRecord (P : Primitives) (block : Bytes) : Bytes :=
  let packed := P.lz4Block block
  LittleEndian.encode 4 packed.size ++ packed

/-- Compresses full blocks off the front of the input. -/
def legacyBlocks (P : Primitives) (input pending : Bytes) : Bytes × Bytes :=
  if Member.legacyBlock ≤ input.size then
    legacyBlocks P (input.dropFirst Member.legacyBlock)
      (pending ++ legacyRecord P (input.takeFirst Member.legacyBlock))
  else (input, pending)
termination_by input.size
decreasing_by
  have : 0 < Member.legacyBlock := by decide
  simp only [Bytes.size_dropFirst]
  omega

/-- The adapter that compresses to the legacy framing. -/
def lz4Legacy (P : Primitives) : Adapter where
  State := LegacyState
  initial := ⟨ByteArray.empty, ByteArray.empty, 0, false⟩
  opened _ := ⟨LittleEndian.encode 4 Lz4Params.legacyMagic, ByteArray.empty, 0, true⟩
  write a data := do
    if ¬ a.isOpen then
      throw (.codec (.notOpen "lz4 legacy"))
    let (input, pending) := legacyBlocks P (a.input ++ data) a.pending
    if drainThreshold ≤ pending.size then
      let n ← drain pending
      return ⟨ByteArray.empty, input, a.emitted + n, true⟩
    else
      return ⟨pending, input, a.emitted, true⟩
  flush a := do
    if ¬ a.isOpen then
      throw (.codec (.notOpen "lz4 legacy"))
    let last := if a.input.size = 0 then ByteArray.empty else legacyRecord P a.input
    let n ← drain (a.pending ++ last)
    return (a.emitted + n, ⟨ByteArray.empty, ByteArray.empty, a.emitted + n, false⟩)
  close a := ⟨ByteArray.empty, ByteArray.empty, a.emitted, false⟩

/-- The adapter that lz4 parameters select. -/
def lz4 (P : Primitives) (params : Lz4Params) : Adapter :=
  if params.isLegacy then lz4Legacy P else lz4Frame P params

/-! ## Whole streams -/

/-- Writes a list of pieces. -/
def writeAll (A : Adapter) : List Bytes → A.State → Emit A.State
  | [], s => return s
  | piece :: rest, s => do
    let s ← A.write s piece
    writeAll A rest s

/-- Compresses data in one write. -/
def compress (A : Adapter) (data : Bytes) : Emit Unit := do
  let s ← A.write (A.opened A.initial) data
  let _ ← A.flush s

/-- What went through an adapter: the sizes on both sides and the digest of the input. -/
structure Restored where
  uncompressed : Nat
  compressed : Nat
  digest : Bytes

/-- Passes an emission through an adapter. If the emission failed, what the adapter has not handed
over by then is dropped. -/
def recompress {α : Type} (P : Primitives) (A : Adapter) (e : Emission α) : Emit Restored := do
  let s ← writeAll A e.pieces (A.opened A.initial)
  match e.outcome with
  | .error err => throw err
  | .ok _ =>
    let (compressed, _) ← A.flush s
    let data := e.bytes
    return ⟨data.size, compressed, P.sha256 data⟩

end Adapter

end BlockUpdate
