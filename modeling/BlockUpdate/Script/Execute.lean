import BlockUpdate.Script.Machine
import BlockUpdate.Script.Source

/-!
# Executing commands

- `Command.execute`: runs one command. A failure of the device asks for another attempt; any other
  failure is final.

A command that makes blocks from other blocks does nothing if its target has the wanted digest
already. Otherwise it takes its source only with the digest that the command names, from the
device and the stash, or failing that from the entry of that name. Before it overwrites a part of
its own source it stashes the source, so that an interrupted command can be repeated, and after
the target was read back with the wanted digest it drops that entry.
-/

namespace BlockUpdate

/-- How a command ended. -/
inductive CommandResult
  | success
  | failed
  /-- The device failed with an input/output error. -/
  | needsRetry
  deriving Repr, DecidableEq

namespace Command

/-! ## New, zero and erase -/

/-- Fills a writer on the target from the new data. -/
def fillFromNewData (set : BlockSet) : MachineM CommandFailure Unit :=
  ExceptT.mk (fun m =>
    match m.newData with
    | none => (.error .noNewData, m)
    | some feed =>
      let writer := BlockWriter.new set (!m.canWrite)
      let (result, s) := Feed.fill.run ⟨feed, writer, m.device⟩
      let m := { m with device := s.writing.device, newData := some s.feed }
      match result with
      | .ok _ => (.ok (), m)
      | .error e => (.error (.feed e), m))

/-- Writes new data to the target. -/
def writeNewData (c : Command) : MachineM CommandFailure Unit := do
  let set ← Machine.ofCommand (c.blockSet 0)
  fillFromNewData set
  Machine.addWritten set.total

/-- Fills the target with zeros. Erased blocks hold nothing and do not count as written. -/
def clear (c : Command) : MachineM CommandFailure Unit := do
  let set ← Machine.ofCommand (c.blockSet 0)
  let isErase := c.verb == .erase
  if (← get).canWrite then
    Machine.onDevice (set.zero isErase (← get).allowFileErase)
  if !isErase then
    Machine.addWritten set.total

/-! ## Moves and patches -/

/-- What a command says that makes blocks from other blocks. -/
structure Recipe where
  sourceHash : String
  targetHash : String
  target : BlockSet
  /-- Where the description of the source begins. -/
  sourcePosition : Nat
  deriving Repr, DecidableEq

/-- Whether a command copies its source unchanged. -/
def isMove (c : Command) : Bool := c.verb == .move || c.verb == .copy

/-- Reads the arguments of a command. A move has one digest, and a patch command two, behind the
place of its patch. -/
def recipe (c : Command) : Except CommandError Recipe := do
  let (source, target, position) := if c.isMove then (0, 0, 1) else (2, 3, 4)
  return ⟨← c.arg source, ← c.arg target, ← c.blockSet position, position + 1⟩

/-- The patch that a command names. -/
def patch (c : Command) (patchData : Bytes) : Except CommandFailure Bytes := do
  let offset ← (c.number 0).mapError .command
  let size ← (c.number 1).mapError .command
  match patchData.slice? offset size with
  | some window => return window
  | none =>
    throw (.command (.badArgument c.verb (toString offset ++ "+" ++ toString size)
      (.outsidePatchData patchData.size)))

/-- What the stash holds under the digest of a source, if it is the source. -/
def recover (P : Primitives) (r : Recipe) (blocks : Nat) (stash : Stash) (files : FileTree) :
    Except CommandFailure Bytes := do
  match ← (stash.load? files r.sourceHash (blocks * blockSize)).mapError .stash with
  | some data =>
    if Checksum.verify P data blocks r.sourceHash then
      return data
    throw (.sourceMismatch r.sourceHash)
  | none => throw (.sourceMismatch r.sourceHash)

/-- The source of a command, which has the digest that the command names. -/
def source (P : Primitives) (c : Command) (r : Recipe) (m : Machine) :
    Except CommandFailure Source := do
  let found ← Source.load c r.sourcePosition m.device m.stash m.files
  if Checksum.verify P found.data found.blocks r.sourceHash then
    return found
  return { found with data := ← recover P r found.blocks m.stash m.files }

/-- Stashes a source that the command is about to overwrite, unless it is stashed already. -/
def keepSource (r : Recipe) (s : Source) : MachineM CommandFailure Unit := do
  let m ← get
  if let some set := s.device then
    if set.overlaps r.target && !m.stash.contains m.files r.sourceHash then
      Machine.reserve s.blocks
      Machine.onFiles (m.stash.store r.sourceHash s.data)

/-- Writes the target. -/
def writeTarget (P : Primitives) (c : Command) (r : Recipe) (data : Bytes) :
    MachineM CommandFailure Unit := do
  if c.isMove then
    let _ ← Machine.onDevice (r.target.write data)
  else
    let patch ← Machine.look fun m => c.patch m.patchData
    let _ ← Machine.onDevice <|
      if c.verb == .imgdiff then r.target.applyImagePatch P patch data
      else r.target.applyBlockPatch P patch data
  Machine.onDevice (DeviceM.sync.mapError .os)

/-- Requires that the target can be read back with the wanted digest. -/
def checkTarget (P : Primitives) (r : Recipe) : MachineM CommandFailure Unit := do
  let found := r.target.readInto (← get).device
  if !Checksum.verify P found r.target.total r.targetHash then
    throw (.targetMismatch r.targetHash)

/-- Drops the stash entry of a source that is not needed any more. -/
def dropSource (r : Recipe) : MachineM CommandFailure Unit := do
  let m ← get
  if let some size := m.stash.entrySize? m.files r.sourceHash then
    Machine.release (size / blockSize)
    Machine.onFiles (m.stash.free r.sourceHash)

/-- What a command would write. -/
def output (P : Primitives) (c : Command) (patchData data : Bytes) :
    Except CommandFailure Bytes := do
  if c.isMove then
    return data
  let patch ← c.patch patchData
  let e :=
    (if c.verb == .imgdiff then ImagePatch.apply P patch data
      else BlockPatch.apply P patch data).emission
  match e.outcome with
  | .ok _ => return e.bytes
  | .error error => throw (.patch error)

/-- Requires that what a command would write has the size and digest of its target. -/
def checkOutput (P : Primitives) (r : Recipe) (data : Bytes) : Except CommandFailure Unit :=
  if data.size = r.target.byteLength ∧ Checksum.verify P data r.target.total r.targetHash then
    .ok ()
  else
    .error (.outputMismatch r.targetHash)

/-- Makes the target from its source and drops what is not needed any more. -/
def applyRecipe (P : Primitives) (c : Command) (r : Recipe) (s : Source) :
    MachineM CommandFailure Unit := do
  keepSource r s
  writeTarget P c r s.data
  checkTarget P r
  dropSource r

/-- Makes blocks from other blocks. -/
def makeTarget (P : Primitives) (c : Command) : MachineM CommandFailure Unit := do
  let r ← Machine.ofCommand c.recipe
  let m ← get
  let some current := r.target.read? m.device
    | throw (.unreadable r.target)
  if !Checksum.verify P current r.target.total r.targetHash then
    let s ← Machine.look (source P c r)
    if m.canWrite then
      applyRecipe P c r s
    else
      Machine.look fun m => do
        checkOutput P r (← c.output P m.patchData s.data)
    Machine.addWritten r.target.total

/-! ## Stash and free -/

/-- Stashes blocks under their digest. A dry run passes over blocks of another digest, because
earlier commands have not written them. -/
def stashBlocks (P : Primitives) (c : Command) : MachineM CommandFailure Unit := do
  let id ← Machine.ofCommand (c.arg 0)
  let set ← Machine.ofCommand (c.blockSet 1)
  let m ← get
  if m.stash.entrySize? m.files id ≠ some set.byteLength then
    let some data := set.read? m.device
      | throw (.unreadable set)
    if Checksum.verify P data set.total id then
      Machine.reserve set.total
      Machine.onFiles (m.stash.store id data)
    else if m.canWrite then
      throw (.stashMismatch id)

/-- Drops a stash entry. Entries of an earlier session stay, because the commands that it had done
are not repeated. -/
def freeEntry (c : Command) : MachineM CommandFailure Unit := do
  let id ← Machine.ofCommand (c.arg 0)
  let m ← get
  if m.stash.created then
    if let some size := m.stash.entrySize? m.files id then
      Machine.release (size / blockSize)
    Machine.onFiles (m.stash.free id)

/-! ## Any command -/

/-- Runs a command; gives why it failed. -/
def run (P : Primitives) (c : Command) : MachineM CommandFailure Unit :=
  match c.verb with
  | .abort | .other => return
  | .new => c.writeNewData
  | .zero | .erase => c.clear
  | .move | .copy | .bsdiff | .imgdiff => c.makeTarget P
  | .stash => c.stashBlocks P
  | .free => c.freeEntry

/-- What the failure of a command means for its script. -/
def resultOf : Except CommandFailure Unit → CommandResult
  | .ok () => .success
  | .error failure => if failure.isIo then .needsRetry else .failed

/-- Runs a command. -/
def execute (P : Primitives) (c : Command) : StateM Machine CommandResult := do
  return resultOf (← c.run P)

end Command

end BlockUpdate
