import BlockUpdate.BlockWriter
import BlockUpdate.Compiled.Build

/-!
# Reading, writing and checking blocks with words

The size of a set in bytes is a product of words, and it is taken again by each operation.

- `Compiled.read?`, `Compiled.readInto`, `Compiled.write`, `Compiled.zero`, `Compiled.verify`: the
  operations on the blocks of a set.
- `Compiled.writePiece`, `Compiled.put`, `Compiled.finish`, `Compiled.receive`: a writer.
-/

namespace BlockUpdate

open Decimal (limit64)

namespace Compiled

variable {ε α : Type} (b : Build)

/-! ## Ranges -/

/-- The size of a set. -/
def byteLength (set : BlockSet) : Except (Halt ε) Nat := size b set.byteLength

/-- The offset of the first byte of a range, and its size. -/
def extent (r : BlockRange) : Except (Halt ε) (Nat × Nat) := do
  let start ← size b r.byteStart
  let length ← size b r.byteLength
  return (start, length)

/-! ## Reading -/

/-- Reads ranges in order into a buffer with the given room, from `position` on. -/
def readRanges (d : Device) (room : Nat) :
    List BlockRange → Nat → Bytes → Except (Halt ε) (Bytes × Bool)
  | [], _, out => return (out, true)
  | r :: rest, position, out => do
    let (start, length) ← extent b r
    let next ← size b (position + length)
    window room position next
    let found := d.readable start length
    if found.size = length then readRanges d room rest next (out ++ found)
    else return (out ++ found, false)

/-- The bytes of a set, if every range can be read. -/
def read? (set : BlockSet) (d : Device) : Except (Halt ε) (Option Bytes) := do
  let length ← byteLength b set
  match ← readRanges b d length set.ranges 0 ByteArray.empty with
  | (data, true) => return some data
  | (_, false) => return none

/-- What an attempt to read a set leaves in a buffer of zeros of its size. -/
def readInto (set : BlockSet) (d : Device) : Except (Halt ε) Bytes := do
  let length ← byteLength b set
  let (found, _) ← readRanges b d length set.ranges 0 ByteArray.empty
  return found.padTo length

/-- Requires room for the bytes of a set. -/
def checkBuffer (set : BlockSet) (room : Nat) : Except (Halt BlockError) Unit := do
  let length ← byteLength b set
  if room < length then
    throw (.failed (.shortBuffer length room))

/-- Whether the first blocks of a buffer have the given digest. A product that does not fit is taken
to be the largest word, in every build. -/
def verify (P : Primitives) (data : Bytes) (blocks : Nat) (expected : String) : Bool :=
  let length := min (blocks * blockSize) (limit64 - 1)
  !expected.isEmpty && length ≤ data.size &&
    Hex.sameDigest (Checksum.text P (data.takeFirst length)) expected

/-- Whether the blocks that a descriptor names can be read and have the given digest. -/
def verifyRanges (P : Primitives) (d : Device) (descriptor expected : String) :
    Except (Halt BlockError) Bool := do
  let set ← unchecked (BlockSet.parse descriptor)
  match ← read? b set d with
  | none => return false
  | some data => return verify P data set.total expected

/-! ## Writing -/

/-- Writes a buffer from `position` on across ranges. -/
def writeRanges (data : Bytes) : List BlockRange → Nat → CompiledM OsError Device Nat
  | [], position => return position
  | r :: rest, position => do
    let (start, length) ← give (extent b r)
    let next ← give (size b (position + length))
    give (window data.size position next)
    step (DeviceM.write start (data.extract position next))
    writeRanges data rest next

/-- Writes the front of a buffer across the ranges of a set. -/
def write (set : BlockSet) (data : Bytes) : CompiledM BlockError Device Nat := do
  give (checkBuffer b set data.size)
  rename .os (writeRanges b data set.ranges 0)

/-- Writes zeros from `start + done` to `start + length`, in runs of at most `run`. Without a run
the loop stays where it is. -/
def zeroFrom (run start length done : Nat) : CompiledM OsError Device Unit :=
  if done < length then
    if 0 < run then do
      let n := min (length - done) run
      let offset ← give (size b (start + done))
      step (DeviceM.write offset (Bytes.zeros n))
      let _ ← give (size b (done + n))
      zeroFrom run start length (done + n)
    else throw .endless
  else return
termination_by length - done
decreasing_by omega

/-- Clears ranges: with `discarding` each of them is discarded, and where the device does not take
that, or else, zeros are written. -/
def clearRanges (run : Nat) (discarding : Bool) : List BlockRange → CompiledM OsError Device Unit
  | [] => return
  | r :: rest => do
    let (start, length) ← give (extent b r)
    let discarded ← if discarding then step (DeviceM.discard start length) else pure false
    if !discarded then
      zeroFrom b run start length 0
    clearRanges run discarding rest

/-- Fills the ranges of a set with zeros, or discards them. The run of zeros is no longer than the
size of the set in a word. -/
def zero (set : BlockSet) (isErase allowFileErase : Bool) : CompiledM BlockError Device Unit := do
  let blockDevice := (← get).isBlockDevice
  if isErase && !blockDevice && !allowFileErase then
    throw (.failed .notBlockDevice)
  let length ← give (byteLength b set)
  rename .os (clearRanges b (min BlockSet.zeroRun length) (isErase && blockDevice) set.ranges)

/-! ## Writers -/

/-- Whether a writer is full. -/
def isDone (w : BlockWriter) : Except (Halt ε) Bool := do
  return w.written == (← byteLength b w.set)

/-- The size of what is still to be written. -/
def remaining (w : BlockWriter) : Except (Halt ε) Nat := do
  minus b (← byteLength b w.set) w.written

/-- Writes the part of a piece that goes to the range under way. -/
def writePart (w : BlockWriter) (data : Bytes) (r : BlockRange) :
    CompiledM OsError Writing Unit := do
  if w.dryRun then
    return
  let start ← give (size b r.byteStart)
  let offset ← give (size b (start + w.rangeOffset))
  step (BlockWriter.onDevice (DeviceM.write offset data))

/-- Writes a piece from `consumed` on into the given ranges, the first of which is under way. -/
def writeInto (data : Bytes) : List BlockRange → Nat → CompiledM OsError Writing Nat
  | [], consumed => return consumed
  | r :: rest, consumed => do
    if data.size ≤ consumed then
      return consumed
    let w := (← get).writer
    let length ← give (size b r.byteLength)
    let room ← give (minus b length w.rangeOffset)
    let n := min room (data.size - consumed)
    writePart b w (data.extract consumed (consumed + n)) r
    let written ← give (size b (w.written + n))
    let _ ← give (size b (w.rangeOffset + n))
    modify fun s => { s with writer := { s.writer.advance n length with written } }
    if n = room then writeInto data rest (consumed + n) else return consumed + n

/-- Writes as much of a piece as still fits. -/
def writePiece (data : Bytes) : CompiledM OsError Writing Nat := do
  let w := (← get).writer
  writeInto b data (w.set.ranges.drop w.rangeIndex) 0

/-- Takes a piece whole, or refuses one that does not fit. -/
def put (data : Bytes) : CompiledM PatchError Writing Unit := do
  let room ← give (remaining b (← get).writer)
  if room < data.size then
    throw (.failed (.outOfRange (.targetFull (data.size - room))))
  let _ ← rename .os (writePiece b data)

/-- Requires that every block was written, and syncs the device. -/
def finish : CompiledM BlockError Writing Nat := do
  let w := (← get).writer
  if !(← give (isDone b w)) then
    throw (.failed (.shortWrite w.written (← give (byteLength b w.set))))
  if !w.dryRun then
    step (BlockWriter.mapError .os (BlockWriter.onDevice DeviceM.sync))
  return w.written

/-- Takes pieces one after the other. -/
def putAll : List Bytes → CompiledM PatchError Writing Unit
  | [] => return
  | piece :: rest => do
    put b piece
    putAll rest

/-- Takes everything that an emission hands over. -/
def receiveAll (e : Emission α) : CompiledM PatchError Writing α := do
  putAll b e.pieces
  give (unchecked e.outcome)

/-- Writes an emission across a set, which it must fill. -/
def receive (set : BlockSet) (e : Emission α) : CompiledM BlockError Device Nat :=
  onPart (fun d => ⟨BlockWriter.new set false, d⟩) (fun _ s => s.device) id do
    let _ ← rename .patch (receiveAll b e)
    finish b

end Compiled

end BlockUpdate
