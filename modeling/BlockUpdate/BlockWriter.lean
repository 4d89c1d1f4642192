import BlockUpdate.BlockIo
import BlockUpdate.Patch.Image

/-!
# Writing a stream across block ranges

- `BlockWriter`: how far a stream has filled the ranges of a set.
- `BlockWriter.write`: takes as much of a piece as still fits.
- `BlockWriter.put`: takes a piece whole or not at all.
- `BlockWriter.finish`: requires that every block was written.
- `BlockSet.applyBlockPatch`, `BlockSet.applyImagePatch`: patches onto a set.
-/

namespace BlockUpdate

/-- A position in the ranges of a set. A dry run keeps the position without writing. -/
structure BlockWriter where
  set : BlockSet
  rangeIndex : Nat := 0
  /-- Bytes written of the range under way. -/
  rangeOffset : Nat := 0
  written : Nat := 0
  dryRun : Bool := false
  deriving Repr, DecidableEq

/-- A writer and the device it writes to. -/
structure Writing where
  writer : BlockWriter
  device : Device

/-- Computations on a writer and its device. -/
abbrev WritingM (ε : Type) := ExceptT ε (StateM Writing)

namespace BlockWriter

/-- A writer at the start of a set. -/
def new (set : BlockSet) (dryRun : Bool) : BlockWriter := { set, dryRun }

/-- The size of everything to be written, as a number. A word may not hold it, and then a writer is
done early or never (`Compiled.isDone`, `Compiled.remaining`). -/
def expected (w : BlockWriter) : Nat := w.set.byteLength

def isDone (w : BlockWriter) : Bool := w.written == w.expected

/-- The size of what is still to be written. -/
def remaining (w : BlockWriter) : Nat := w.expected - w.written

/-- Moves on by `n` bytes within a range of the given size. -/
def advance (w : BlockWriter) (n rangeLength : Nat) : BlockWriter :=
  if w.rangeOffset + n = rangeLength then
    { w with rangeIndex := w.rangeIndex + 1, rangeOffset := 0, written := w.written + n }
  else { w with rangeOffset := w.rangeOffset + n, written := w.written + n }

/-- Runs a device computation on the device of a writer. -/
def onDevice {ε α : Type} (x : DeviceM ε α) : WritingM ε α :=
  ExceptT.mk (fun s =>
    let (result, device) := x.run s.device
    (result, { s with device }))

/-- Writes a piece from `consumed` on into the given ranges, the first of which is under way; gives
how much of the piece was consumed. -/
def writeRanges (data : Bytes) : List BlockRange → Nat → WritingM OsError Nat
  | [], consumed => return consumed
  | r :: rest, consumed => do
    if data.size ≤ consumed then
      return consumed
    let w := (← get).writer
    let room := r.byteLength - w.rangeOffset
    let n := min room (data.size - consumed)
    if !w.dryRun then
      onDevice (DeviceM.write (r.byteStart + w.rangeOffset)
        (data.extract consumed (consumed + n)))
    modify fun s => { s with writer := s.writer.advance n r.byteLength }
    if n = room then writeRanges data rest (consumed + n) else return consumed + n

/-- Writes as much of a piece as still fits; gives the number of bytes consumed. -/
def write (data : Bytes) : WritingM OsError Nat := do
  let w := (← get).writer
  writeRanges data (w.set.ranges.drop w.rangeIndex) 0

/-- Renames the errors of a computation. -/
def mapError {ε ε' α : Type} (f : ε → ε') (x : WritingM ε α) : WritingM ε' α :=
  ExceptT.mk (fun s =>
    match x.run s with
    | (.ok a, s) => (.ok a, s)
    | (.error e, s) => (.error (f e), s))

/-- Takes a piece whole, or refuses one that does not fit. -/
def put (data : Bytes) : WritingM PatchError Unit := do
  let w := (← get).writer
  if w.remaining < data.size then
    throw (.outOfRange (.targetFull (data.size - w.remaining)))
  let _ ← mapError .os (write data)

/-- Requires that every block was written, and syncs the device. -/
def finish : WritingM BlockError Nat := do
  let w := (← get).writer
  if !w.isDone then
    throw (.shortWrite w.written w.expected)
  if !w.dryRun then
    mapError .os (onDevice DeviceM.sync)
  return w.written

/-- Takes everything that an emission hands over. -/
def receive {α : Type} (e : Emission α) : WritingM PatchError α :=
  ExceptT.mk (e.deliver fun s piece => (put piece).run s)

end BlockWriter

namespace BlockSet

/-- Writes an emission across a set, which it must fill; gives the number of bytes written. -/
def receive {α : Type} (set : BlockSet) (e : Emission α) : DeviceM BlockError Nat :=
  ExceptT.mk (fun d =>
    let run : WritingM BlockError Nat := do
      let _ ← BlockWriter.mapError .patch (BlockWriter.receive e)
      BlockWriter.finish
    let (result, s) := run.run ⟨BlockWriter.new set false, d⟩
    (result, s.device))

/-- Applies a block patch to old data, writing the result across a set. -/
def applyBlockPatch (P : Primitives) (set : BlockSet) (patch old : Bytes) :
    DeviceM BlockError Nat :=
  set.receive (BlockPatch.apply P patch old).emission

/-- Applies an image patch to old data, writing the result across a set. -/
def applyImagePatch (P : Primitives) (set : BlockSet) (patch old : Bytes) :
    DeviceM BlockError Nat :=
  set.receive (ImagePatch.apply P patch old).emission

end BlockSet

end BlockUpdate
