import BlockUpdate.Script.Failure

/-!
# The source of a command

The source of a move or a patch is put together from blocks of the device and pieces of the stash.
Its arguments begin with the number of blocks and have one of three forms:

- `blocks range`: the blocks of the range, in order,
- `blocks - id:locations …`: pieces of the stash, each at its own locations,
- `blocks range locations id:locations …`: both; the blocks of the range go to `locations`.

Locations are block positions inside the source. What no argument covers is zero, and so is a
piece that the stash does not hold with the size of its locations.

- `Source.load`: puts the source together.
-/

namespace BlockUpdate

/-- The bytes that a command works from. -/
structure Source where
  data : Bytes
  /-- The declared number of blocks. -/
  blocks : Nat
  /-- The blocks of the device that were read, if any. -/
  device : Option BlockSet

namespace Source

/-- Copies data from `position` on to the given ranges of a buffer, in order. -/
def scatterRanges (data : Bytes) : List BlockRange → Nat → Bytes → Except ArgumentFault Bytes
  | [], _, buffer => .ok buffer
  | r :: rest, position, buffer =>
    if buffer.size < r.byteStart + r.byteLength then .error .outsideSource
    else if data.size < position + r.byteLength then .error .outsideData
    else
      scatterRanges data rest (position + r.byteLength)
        (buffer.writeAt r.byteStart (data.extract position (position + r.byteLength)))

/-- The error of an argument. -/
def bad {α : Type} (c : Command) (value : String) (fault : ArgumentFault) :
    Except CommandFailure α :=
  .error (.command (.badArgument c.verb value fault))

/-- Copies data to locations in a buffer. -/
def scatter (c : Command) (locations : BlockSet) (data buffer : Bytes) :
    Except CommandFailure Bytes :=
  match scatterRanges data locations.ranges 0 buffer with
  | .ok buffer => .ok buffer
  | .error fault => bad c locations.text fault

/-- The block set that a text denotes. -/
def blockSetOf (descriptor : String) : Except CommandFailure BlockSet :=
  (Command.blockSetOf descriptor).mapError .command

/-- Adds one piece of the stash to a buffer. -/
def addPiece (c : Command) (stash : Stash) (files : FileTree) (buffer : Bytes) (piece : String) :
    Except CommandFailure Bytes := do
  let some (id, locations) := Blank.splitFirst? ':' piece
    | bad c piece .malformedPiece
  let locations ← blockSetOf locations
  match ← (stash.load? files id locations.byteLength).mapError .stash with
  | some data => scatter c locations data buffer
  | none => return buffer

/-- Adds the blocks of the device; gives the number of arguments that this takes up too. -/
def addDevice (c : Command) (device : Device) (range : BlockSet) (locations : Option String)
    (buffer : Bytes) : Except CommandFailure (Bytes × Nat) := do
  let found := range.readInto device
  match locations with
  | none => return (buffer.writeAt 0 found, 1)
  | some locations =>
    let locations ← blockSetOf locations
    if locations.total ≠ range.total then
      bad c locations.text .locationCount
    else
      return (← scatter c locations found buffer, 2)

/-- Puts together the source that is described from an argument on, in a buffer of the declared size.
That size is a number; in a word it may be smaller (`Compiled.load`). -/
def load (c : Command) (position : Nat) (device : Device) (stash : Stash) (files : FileTree) :
    Except CommandFailure Source := do
  let blocks ← (c.number position).mapError .command
  let first ← (c.arg (position + 1)).mapError .command
  let zeros := Bytes.zeros (blocks * blockSize)
  if first = "-" then
    let data ← (c.args.drop (position + 2)).foldlM (addPiece c stash files) zeros
    return ⟨data, blocks, none⟩
  else
    let range ← blockSetOf first
    if blocks < range.total then
      bad c first (.tooManyBlocks blocks)
    else
      let (data, used) ← addDevice c device range c.args[position + 2]? zeros
      let data ←
        (c.args.drop (position + 1 + used)).foldlM (addPiece c stash files) data
      return ⟨data, blocks, some range⟩

end Source

end BlockUpdate
