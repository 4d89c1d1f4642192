import BlockUpdate.Bytes
import BlockUpdate.OsError

/-!
# Devices

The target of an update: contents that are read and written at byte offsets, and the ways in
which reads, writes and syncs fail.

- `Device.readable`: the bytes that a read delivers before it stops.
- `Device.write`: one positional write.
- `Device.sync`: asks for everything written to reach the medium.
- `Device.discard`: gives up what a block device holds in a window.

A device of its own, with no faults, is a regular file: reads stop at its end, and writes past the
end make it grow. A block device is one that answers discards, as it sees fit.
-/

namespace BlockUpdate

/-- How a write fails: the error, and how many bytes it wrote before. -/
structure WriteFault where
  errno : Errno
  landed : Nat
  deriving Repr, DecidableEq

/-- When the operations of a device fail. -/
structure Faults where
  /-- Failure of a read at a byte offset. -/
  read : Nat → Option Errno
  /-- Failure of a write, by the number of writes before it. -/
  write : Nat → Option WriteFault
  /-- Failure of a sync, by the number of writes before it. -/
  sync : Nat → Option Errno

namespace Faults

/-- No operation fails. -/
def none : Faults := ⟨fun _ => .none, fun _ => .none, fun _ => .none⟩

/-- Every write fails with the same error and writes nothing. -/
def onWrite (e : Errno) : Faults :=
  { none with write := fun _ => some ⟨e, 0⟩ }

/-- Every read and every write fails with the same error. -/
def onAll (e : Errno) : Faults :=
  { onWrite e with read := fun _ => some e }

end Faults

/-- How a block device answers when it is asked to discard a window: always alike for one window. -/
structure Discards where
  /-- Whether it takes the discard, by byte offset and length. -/
  takes : Nat → Nat → Bool
  /-- What it holds in the window after a discard that it took. -/
  leaves : Nat → Nat → Bytes

/-- What a device holds in a window after a discard, as many bytes as the window has. -/
def Discards.left (how : Discards) (start len : Nat) : Bytes :=
  ((how.leaves start len).padTo len).takeFirst len

theorem Discards.size_left (how : Discards) (start len : Nat) :
    (how.left start len).size = len := by
  rw [left, Bytes.size_takeFirst, Bytes.size_padTo]
  omega

/-- The target of an update. -/
structure Device where
  /-- The contents. -/
  image : Bytes
  /-- Whether reads past the contents give zeros instead of stopping. -/
  endless : Bool := false
  faults : Faults := Faults.none
  /-- What becomes of discards; nothing but a block device takes them. -/
  discards : Option Discards := none
  /-- The number of writes so far; a discard that was taken counts as one. -/
  writes : Nat := 0

namespace Device

/-- A regular file. -/
def file (image : Bytes) : Device := { image }

/-- A regular file that was opened for reading only. -/
def readOnly (image : Bytes) : Device := { image, faults := Faults.onWrite Errno.badDescriptor }

/-- A device full of zeros that takes no data. -/
def full : Device :=
  { image := ByteArray.empty, endless := true, faults := Faults.onWrite Errno.noSpace }

/-- A device on which every read and every write fails. -/
def broken : Device := { image := ByteArray.empty, faults := Faults.onAll Errno.io }

/-- Whether windows can be discarded. Regular and character files cannot do so. -/
def isBlockDevice (d : Device) : Bool := d.discards.isSome

/-- Byte offsets from here on are invalid. -/
def offsetLimit : Nat := 2 ^ 63

/-- The bytes that a read of `len` bytes at `start` delivers before it stops. -/
def readable (d : Device) (start len : Nat) : Bytes :=
  if offsetLimit ≤ start then ByteArray.empty
  else
    match d.faults.read start with
    | some _ => ByteArray.empty
    | none =>
      let found := d.image.extract start (start + len)
      if d.endless then Bytes.padTo found len else found

/-- Writes data at a byte offset. A failed write leaves what it wrote before it failed. -/
def write (d : Device) (start : Nat) (data : Bytes) : Except OsError Unit × Device :=
  if data.size = 0 then (.ok (), d)
  else if offsetLimit ≤ start then (.error (.errno Errno.invalid), d)
  else
    match d.faults.write d.writes with
    | some fault =>
      let landed := data.takeFirst fault.landed
      let image := if landed.size = 0 then d.image else d.image.writeAt start landed
      (.error (.errno fault.errno), { d with image, writes := d.writes + 1 })
    | none => (.ok (), { d with image := d.image.writeAt start data, writes := d.writes + 1 })

/-- Discards `len` bytes at a byte offset; gives whether the device took that. What it then holds
there is up to the device. -/
def discard (d : Device) (start len : Nat) : Bool × Device :=
  match d.discards with
  | none => (false, d)
  | some how =>
    if how.takes start len then
      let left := how.left start len
      let image := if left.size = 0 then d.image else d.image.writeAt start left
      (true, { d with image, writes := d.writes + 1 })
    else (false, d)

/-- Asks for everything written to reach the medium. -/
def sync (d : Device) : Except OsError Unit :=
  match d.faults.sync d.writes with
  | some e => .error (.errno e)
  | none => .ok ()

end Device

/-- Computations on a device that may fail; what they wrote before stays. -/
abbrev DeviceM (ε : Type) := ExceptT ε (StateM Device)

namespace DeviceM

/-- Writes data at a byte offset. -/
def write (start : Nat) (data : Bytes) : DeviceM OsError Unit :=
  ExceptT.mk (fun d => d.write start data)

/-- Asks for everything written to reach the medium. -/
def sync : DeviceM OsError Unit :=
  ExceptT.mk (fun d => (d.sync, d))

/-- Discards a window; gives whether the device took that. A refusal is no failure. -/
def discard {ε : Type} (start len : Nat) : DeviceM ε Bool :=
  ExceptT.mk (fun d =>
    let (taken, d) := d.discard start len
    (.ok taken, d))

/-- Renames the errors of a computation. -/
def mapError {ε ε' α : Type} (f : ε → ε') (x : DeviceM ε α) : DeviceM ε' α :=
  ExceptT.mk (fun d =>
    match x.run d with
    | (.ok a, d) => (.ok a, d)
    | (.error e, d) => (.error (f e), d))

end DeviceM

end BlockUpdate
