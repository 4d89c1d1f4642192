import BlockUpdate.Script.Failure
import BlockUpdate.Script.Header

/-!
# What commands work on

- `Machine`: the target, the files around it, and what the commands of one script share.
- `Machine.reserve`, `Machine.release`: the count of what the stash holds, against its limits.
-/

namespace BlockUpdate

/-- The state of a script under way. -/
structure Machine where
  /-- The target. -/
  device : Device
  /-- The directories of the update. -/
  files : FileTree
  stash : Stash
  header : ScriptHeader
  /-- The number of blocks written so far. -/
  written : Nat := 0
  /-- Whether the target may be written. A dry run only checks what would be written. -/
  canWrite : Bool := true
  /-- Whether an erase fills a regular file with zeros. -/
  allowFileErase : Bool := false
  patchData : Bytes := ByteArray.empty
  newData : Option Feed := none
  /-- The number of entries that are counted against the limits. -/
  stashedEntries : Nat := 0
  /-- The number of stashed blocks that are counted against the limits. -/
  stashedBlocks : Nat := 0

/-- Computations of commands. -/
abbrev MachineM (ε : Type) := ExceptT ε (StateM Machine)

namespace Machine

/-! ## Parts -/

/-- Runs a computation on the target. -/
def onDevice {α : Type} (x : DeviceM BlockError α) : MachineM CommandFailure α :=
  ExceptT.mk (fun m =>
    let (result, device) := x.run m.device
    (result.mapError .block, { m with device }))

/-- Runs a computation on the files. -/
def onFiles {α : Type} (x : FileM StashError α) : MachineM CommandFailure α :=
  ExceptT.mk (fun m =>
    let (result, files) := x.run m.files
    (result.mapError .stash, { m with files }))

/-- Looks at the machine. -/
def look {ε α : Type} (f : Machine → Except ε α) : MachineM ε α :=
  ExceptT.mk (fun m => (f m, m))

/-- Reads from a command. -/
def ofCommand {α : Type} (x : Except CommandError α) : MachineM CommandFailure α :=
  look fun _ => x.mapError .command

/-! ## Counting the stash -/

/-- Whether a count exceeds a limit; a limit of zero is none. -/
def exceeds (count limit : Nat) : Bool := limit != 0 && limit < count

/-- Counts one more entry, if the limits allow it. -/
def reserve (blocks : Nat) : MachineM CommandFailure Unit := do
  let m ← get
  let entries := m.stashedEntries + 1
  let total := m.stashedBlocks + blocks
  if exceeds entries m.header.maxStashEntries then
    throw (.tooManyEntries entries m.header.maxStashEntries)
  if exceeds total m.header.maxStashBlocks then
    throw (.tooManyBlocks total m.header.maxStashBlocks)
  set { m with stashedEntries := entries, stashedBlocks := total }

/-- Counts one entry less. -/
def release (blocks : Nat) : MachineM CommandFailure Unit :=
  modify fun m =>
    { m with stashedEntries := m.stashedEntries - 1, stashedBlocks := m.stashedBlocks - blocks }

/-- Counts the entries that the stash holds. -/
def countStash (m : Machine) : Except StashError Machine := do
  let ids ← m.stash.entries m.files
  let blocks := ids.map fun id => (m.stash.entrySize? m.files id).getD 0 / blockSize
  return { m with
    stashedEntries := m.stashedEntries + ids.length
    stashedBlocks := m.stashedBlocks + blocks.sum }

/-- Counts more blocks as written. -/
def addWritten (blocks : Nat) : MachineM CommandFailure Unit :=
  modify fun m => { m with written := m.written + blocks }

end Machine

end BlockUpdate
