import BlockUpdate.Compiled.Feeds
import BlockUpdate.Script.Execute

/-!
# Executing commands with words

- `Compiled.load`: puts a source together.
- `Compiled.run`: runs a command; `Compiled.execute`: and says how it ended.

What is counted in blocks, and how much of a patch is still to be read, are numbers here as in the
rest of the library.
-/

namespace BlockUpdate

open Decimal (limit64)

namespace Compiled

variable (b : Build)

/-! ## Sources -/

/-- Copies data from `position` on to the given ranges of a buffer, in order. -/
def scatterRanges (data : Bytes) :
    List BlockRange → Nat → Bytes → Except (Halt ArgumentFault) Bytes
  | [], _, buffer => .ok buffer
  | r :: rest, position, buffer => do
    let (start, length) ← extent b r
    let stop ← size b (start + length)
    if stop < start ∨ buffer.size < stop then
      throw (.failed .outsideSource)
    else
      let next ← size b (position + length)
      if next < position ∨ data.size < next then
        throw (.failed .outsideData)
      else
        scatterRanges data rest next (buffer.writeAt start (data.extract position next))

/-- Copies data to locations in a buffer. -/
def scatter (c : Command) (locations : BlockSet) (data buffer : Bytes) :
    Except (Halt CommandFailure) Bytes :=
  (scatterRanges b data locations.ranges 0 buffer).mapError
    (.map fun fault => .command (.badArgument c.verb locations.text fault))

/-- Adds one piece of the stash to a buffer. A piece without bytes counts as missing. -/
def addPiece (c : Command) (stash : Stash) (files : FileTree) (buffer : Bytes) (piece : String) :
    Except (Halt CommandFailure) Bytes := do
  let some (id, locations) := Blank.splitFirst? ':' piece
    | unchecked (Source.bad c piece .malformedPiece)
  let locations ← unchecked (Source.blockSetOf locations)
  let length ← byteLength b locations
  match ← unchecked ((stash.load? files id length).mapError .stash) with
  | some data => if length = 0 then return buffer else scatter b c locations data buffer
  | none => return buffer

/-- Adds the blocks of the device; gives the number of arguments that this takes up too. -/
def addDevice (c : Command) (device : Device) (range : BlockSet) (locations : Option String)
    (buffer : Bytes) : Except (Halt CommandFailure) (Bytes × Nat) := do
  let found ← readInto b range device
  match locations with
  | none =>
    window buffer.size 0 found.size
    return (buffer.writeAt 0 found, 1)
  | some locations =>
    let locations ← unchecked (Source.blockSetOf locations)
    if locations.total ≠ range.total then
      unchecked (Source.bad c locations.text .locationCount)
    else
      return (← scatter b c locations found buffer, 2)

/-- Puts together the source that is described from an argument on. -/
def load (c : Command) (position : Nat) (device : Device) (stash : Stash) (files : FileTree) :
    Except (Halt CommandFailure) Source := do
  let blocks ← unchecked ((c.number position).mapError .command)
  let length ← size b (blocks * blockSize)
  let first ← unchecked ((c.arg (position + 1)).mapError .command)
  let zeros := Bytes.zeros length
  if first = "-" then
    let data ← (c.args.drop (position + 2)).foldlM (addPiece b c stash files) zeros
    return ⟨data, blocks, none⟩
  else
    let range ← unchecked (Source.blockSetOf first)
    if blocks < range.total then
      unchecked (Source.bad c first (.tooManyBlocks blocks))
    else
      let (data, used) ← addDevice b c device range c.args[position + 2]? zeros
      let data ←
        (c.args.drop (position + 1 + used)).foldlM (addPiece b c stash files) data
      return ⟨data, blocks, some range⟩

/-! ## Moves and patches -/

/-- The bytes of a string from `offset` on, if their end can be computed and they are there. -/
def slice? (data : Bytes) (offset size : Nat) : Option Bytes :=
  if offset + size < limit64 then data.slice? offset size else none

/-- The patch that a command names. -/
def patch (c : Command) (patchData : Bytes) : Except CommandFailure Bytes := do
  let offset ← (c.number 0).mapError .command
  let size ← (c.number 1).mapError .command
  match slice? patchData offset size with
  | some window => return window
  | none =>
    throw (.command (.badArgument c.verb (toString offset ++ "+" ++ toString size)
      (.outsidePatchData patchData.size)))

/-- What the stash holds under the digest of a source, if it is the source. -/
def recover (P : Primitives) (r : Command.Recipe) (blocks : Nat) (stash : Stash)
    (files : FileTree) : Except (Halt CommandFailure) Bytes := do
  let length ← size b (blocks * blockSize)
  match ← unchecked ((stash.load? files r.sourceHash length).mapError .stash) with
  | some data =>
    if verify P data blocks r.sourceHash then
      return data
    throw (.failed (.sourceMismatch r.sourceHash))
  | none => throw (.failed (.sourceMismatch r.sourceHash))

/-- The source of a command, which has the digest that the command names. -/
def source (P : Primitives) (c : Command) (r : Command.Recipe) (m : Machine) :
    Except (Halt CommandFailure) Source := do
  let found ← load b c r.sourcePosition m.device m.stash m.files
  if verify P found.data found.blocks r.sourceHash then
    return found
  return { found with data := ← recover b P r found.blocks m.stash m.files }

/-- Runs a computation on the target. -/
def onDevice {α : Type} (x : CompiledM BlockError Device α) : CompiledM CommandFailure Machine α :=
  onPart (·.device) (fun m device => { m with device }) .block x

/-- Writes the target. -/
def writeTarget (P : Primitives) (c : Command) (r : Command.Recipe) (data : Bytes) :
    CompiledM CommandFailure Machine Unit := do
  if c.isMove then
    let _ ← onDevice (write b r.target data)
  else
    let patch ← step (Machine.look fun m => patch c m.patchData)
    let _ ← onDevice <|
      if c.verb == .imgdiff then receive b r.target (ImagePatch.apply P patch data).emission
      else receive b r.target (BlockPatch.apply P patch data).emission
  step (Machine.onDevice (DeviceM.sync.mapError .os))

/-- Requires that the target can be read back with the wanted digest. -/
def checkTarget (P : Primitives) (r : Command.Recipe) : CompiledM CommandFailure Machine Unit := do
  let found ← give (readInto b r.target (← get).device)
  if !verify P found r.target.total r.targetHash then
    throw (.failed (.targetMismatch r.targetHash))

/-- What a command would write. Room for the target is made before a patch is applied. -/
def output (P : Primitives) (c : Command) (r : Command.Recipe) (patchData data : Bytes) :
    Except (Halt CommandFailure) Bytes := do
  if c.isMove then
    return data
  let _ ← byteLength b r.target
  let patch ← unchecked (patch c patchData)
  let e :=
    (if c.verb == .imgdiff then ImagePatch.apply P patch data
      else BlockPatch.apply P patch data).emission
  match e.outcome with
  | .ok _ => return e.bytes
  | .error error => throw (.failed (.patch error))

/-- Requires that what a command would write has the size and digest of its target. -/
def checkOutput (P : Primitives) (r : Command.Recipe) (data : Bytes) :
    Except (Halt CommandFailure) Unit := do
  let length ← byteLength b r.target
  if data.size = length ∧ verify P data r.target.total r.targetHash then
    .ok ()
  else
    throw (.failed (.outputMismatch r.targetHash))

/-- Makes the target from its source and drops what is not needed any more. -/
def applyRecipe (P : Primitives) (c : Command) (r : Command.Recipe) (s : Source) :
    CompiledM CommandFailure Machine Unit := do
  step (Command.keepSource r s)
  writeTarget b P c r s.data
  checkTarget b P r
  step (Command.dropSource r)

/-- Makes blocks from other blocks. -/
def makeTarget (P : Primitives) (c : Command) : CompiledM CommandFailure Machine Unit := do
  let r ← step (Machine.ofCommand c.recipe)
  let m ← get
  let some current ← give (read? b r.target m.device)
    | throw (.failed (.unreadable r.target))
  if !verify P current r.target.total r.targetHash then
    let s ← look (source b P c r)
    if m.canWrite then
      applyRecipe b P c r s
    else
      look fun m => do
        checkOutput b P r (← output b P c r m.patchData s.data)
    step (Machine.addWritten r.target.total)

/-! ## Any command -/

/-- A writer on the device of a machine, and the feed from which it is filled. -/
def feeding (set : BlockSet) (feed : Feed) (m : Machine) : Feeding :=
  ⟨feed, BlockWriter.new set (!m.canWrite), m.device⟩

/-- A machine after a fill. -/
def fed (m : Machine) (s : Feeding) : Machine :=
  { m with device := s.writing.device, newData := some s.feed }

/-- Fills a writer on the target from the new data. -/
def fillFromNewData (set : BlockSet) : CompiledM CommandFailure Machine Unit := do
  match (← get).newData with
  | none => throw (.failed .noNewData)
  | some feed =>
    let _ ← onPart (feeding set feed) fed .feed (fill b)

/-- Writes new data to the target. -/
def writeNewData (c : Command) : CompiledM CommandFailure Machine Unit := do
  let set ← step (Machine.ofCommand (c.blockSet 0))
  fillFromNewData b set
  step (Machine.addWritten set.total)

/-- Fills the target with zeros. -/
def clear (c : Command) : CompiledM CommandFailure Machine Unit := do
  let set ← step (Machine.ofCommand (c.blockSet 0))
  let isErase := c.verb == .erase
  if (← get).canWrite then
    onDevice (zero b set isErase (← get).allowFileErase)
  if !isErase then
    step (Machine.addWritten set.total)

/-- Stashes blocks under their digest. -/
def stashBlocks (P : Primitives) (c : Command) : CompiledM CommandFailure Machine Unit := do
  let id ← step (Machine.ofCommand (c.arg 0))
  let set ← step (Machine.ofCommand (c.blockSet 1))
  let m ← get
  let length ← give (byteLength b set)
  if m.stash.entrySize? m.files id ≠ some length then
    let some data ← give (read? b set m.device)
      | throw (.failed (.unreadable set))
    if verify P data set.total id then
      step (Machine.reserve set.total)
      step (Machine.onFiles (m.stash.store id data))
    else if m.canWrite then
      throw (.failed (.stashMismatch id))

/-- Runs a command. -/
def run (P : Primitives) (c : Command) : CompiledM CommandFailure Machine Unit :=
  match c.verb with
  | .abort | .other => return
  | .new => writeNewData b c
  | .zero | .erase => clear b c
  | .move | .copy | .bsdiff | .imgdiff => makeTarget b P c
  | .stash => stashBlocks b P c
  | .free => step c.freeEntry

/-- Runs a command; gives how it ended, if it ended at all. -/
def execute (P : Primitives) (c : Command) : CompiledM Empty Machine CommandResult :=
  ExceptT.mk (fun m =>
    let ended := (run b P c).run m
    let result := match ended.1 with
      | .ok () => .ok (Command.resultOf (.ok ()))
      | .error (.failed failure) => .ok (Command.resultOf (.error failure))
      | .error .overflow => .error .overflow
      | .error .outOfBounds => .error .outOfBounds
      | .error .endless => .error .endless
    (result, ended.2))

end Compiled

end BlockUpdate
