import BlockUpdate.BlockSet
import BlockUpdate.Bytes.Hex
import BlockUpdate.Device
import BlockUpdate.Primitives

/-!
# Reading, writing and checking the blocks of a set

- `BlockSet.read?`: the bytes of a set, if every range can be read.
- `BlockSet.readInto`: what an attempt to read leaves in a buffer of zeros.
- `BlockSet.write`: writes the front of a buffer across the ranges.
- `BlockSet.zero`: fills the ranges with zeros, or discards them.
- `Checksum.verify`: whether blocks have a given digest.
-/

namespace BlockUpdate

namespace BlockSet

/-! ## Reading -/

/-- What reading ranges in order delivers, up to the first range that cannot be read in full, and
whether there was none. -/
def readRanges (d : Device) : List BlockRange → Bytes → Bytes × Bool
  | [], out => (out, true)
  | r :: rest, out =>
    let found := d.readable r.byteStart r.byteLength
    if found.size = r.byteLength then readRanges d rest (out ++ found) else (out ++ found, false)

/-- The bytes of a set in the order of its ranges, if every range can be read. -/
def read? (set : BlockSet) (d : Device) : Option Bytes :=
  match readRanges d set.ranges ByteArray.empty with
  | (data, true) => some data
  | (_, false) => none

/-- What an attempt to read a set leaves in a buffer of zeros of its size. -/
def readInto (set : BlockSet) (d : Device) : Bytes :=
  (readRanges d set.ranges ByteArray.empty).1.padTo set.byteLength

/-- Requires room for the bytes of a set. -/
def checkBuffer (set : BlockSet) (size : Nat) : Except BlockError Unit :=
  if size < set.byteLength then .error (.shortBuffer set.byteLength size) else .ok ()

/-! ## Writing -/

/-- Writes a buffer from `position` on across ranges. -/
def writeRanges (data : Bytes) : List BlockRange → Nat → DeviceM OsError Nat
  | [], position => return position
  | r :: rest, position => do
    DeviceM.write r.byteStart (data.extract position (position + r.byteLength))
    writeRanges data rest (position + r.byteLength)

/-- Writes the front of a buffer across the ranges of a set; gives the number of bytes written. -/
def write (set : BlockSet) (data : Bytes) : DeviceM BlockError Nat := do
  if let .error e := set.checkBuffer data.size then
    throw e
  (writeRanges data set.ranges 0).mapError .os

/-- Zeros are written in runs of at most this size. -/
def zeroRun : Nat := 256 * blockSize

/-- Writes zeros from `start + done` to `start + length`, in runs of at most `run`. -/
def zeroFrom (run : Nat) (hrun : 0 < run) (start length done : Nat) : DeviceM OsError Unit :=
  if done < length then do
    let n := min (length - done) run
    DeviceM.write (start + done) (Bytes.zeros n)
    zeroFrom run hrun start length (done + n)
  else return
termination_by length - done
decreasing_by omega

/-- Clears ranges: with `discarding` each of them is discarded, and where the device does not take
that, or else, zeros are written. -/
def clearRanges (run : Nat) (hrun : 0 < run) (discarding : Bool) :
    List BlockRange → DeviceM OsError Unit
  | [] => return
  | r :: rest => do
    let discarded ← if discarding then DeviceM.discard r.byteStart r.byteLength else pure false
    if !discarded then
      zeroFrom run hrun r.byteStart r.byteLength 0
    clearRanges run hrun discarding rest

/-- Fills the ranges of a set with zeros. An erase discards them on a block device; on a device that
cannot discard it is refused, unless it is allowed, and then writes zeros too. Runs are no longer
than the set, so only a set without blocks has no run, and it has no ranges either. -/
def zero (set : BlockSet) (isErase allowFileErase : Bool) : DeviceM BlockError Unit := do
  let blockDevice := (← get).isBlockDevice
  if isErase && !blockDevice && !allowFileErase then
    throw .notBlockDevice
  if hrun : 0 < min zeroRun set.byteLength then
    (clearRanges (min zeroRun set.byteLength) hrun (isErase && blockDevice) set.ranges).mapError .os

end BlockSet

/-! ## Checking -/

namespace Checksum

/-- The digest of data as hexadecimal text. -/
def text (P : Primitives) (data : Bytes) : String := Hex.encode (P.sha256 data)

/-- Whether the first blocks of a buffer have the given digest; an empty text is no digest. -/
def verify (P : Primitives) (data : Bytes) (blocks : Nat) (expected : String) : Bool :=
  !expected.isEmpty && blocks * blockSize ≤ data.size &&
    Hex.sameDigest (text P (data.takeFirst (blocks * blockSize))) expected

/-- Whether the blocks that a descriptor names can be read and have the given digest. -/
def verifyRanges (P : Primitives) (d : Device) (descriptor expected : String) :
    Except BlockError Bool := do
  let set ← BlockSet.parse descriptor
  match set.read? d with
  | none => return false
  | some data => return verify P data set.total expected

end Checksum

end BlockUpdate
