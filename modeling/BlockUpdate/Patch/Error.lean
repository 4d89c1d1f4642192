import BlockUpdate.OsError
import BlockUpdate.Text.Quoted

/-!
# Why a patch cannot be read or applied

Four kinds of failure, by what is wrong: the structure of the patch (`HeaderFault`), a run or
window that leaves its bounds (`RangeFault`), a member of another size than declared, and a
compressed stream that does not decode (`CodecStage`). Errors of the output pass through
unchanged as `PatchError.os`.
-/

namespace BlockUpdate

/-- What is wrong with the structure of a patch. -/
inductive HeaderFault
  /-- A field of `count` bytes at `offset` ends past the `size` bytes there are. -/
  | shortField (count offset size : Nat)
  /-- A block patch is shorter than its header. -/
  | shortHeader (size : Nat)
  | badBlockMagic
  /-- A length in the header of a block patch is negative. -/
  | negativeLength (control diff new : Int)
  /-- The streams of a block patch end past its `size` bytes. -/
  | longStreams (size : Nat)
  /-- A control triple has a negative run. -/
  | negativeRun (add copy : Int)
  /-- The old position leaves the range of positions. -/
  | seekOverflow (seek : Int)
  | badImageMagic
  | unknownChunk (kind : Nat)
  /-- A chunk names no place inside the image patch of `size` bytes. -/
  | badPatchOffset (offset size : Nat)
  | badLegacyMagic (magic : Nat)
  deriving Repr, DecidableEq

def HeaderFault.message : HeaderFault → String
  | .shortField count offset size =>
    "need " ++ toString count ++ " bytes at offset " ++ toString offset ++ ", have " ++
      toString size
  | .shortHeader size => "block patch too short: " ++ toString size ++ " bytes"
  | .badBlockMagic => "bad block patch magic"
  | .negativeLength control diff new =>
    "negative length (ctrl " ++ toString control ++ ", diff " ++ toString diff ++ ", new " ++
      toString new ++ ")"
  | .longStreams size => "streams exceed patch length " ++ toString size
  | .negativeRun add copy =>
    "negative control run (add " ++ toString add ++ ", copy " ++ toString copy ++ ")"
  | .seekOverflow seek => "seek overflow: " ++ toString seek
  | .badImageMagic => "bad image patch magic"
  | .unknownChunk kind => "unknown chunk type " ++ toString kind
  | .badPatchOffset offset size =>
    "block patch offset " ++ toString offset ++ " outside image patch of " ++ toString size ++
      " bytes"
  | .badLegacyMagic magic => "bad lz4 legacy magic 0x" ++ Quoted.hexDigits magic

/-- Which run or window leaves its bounds. -/
inductive RangeFault
  /-- A diff run ends past the declared size. -/
  | diffRun (length start newSize : Nat)
  /-- An extra run ends past the declared size. -/
  | extraRun (length start newSize : Nat)
  /-- A piece of a diff run would move the old position out of its range. -/
  | oldPosition (length : Nat) (position : Int)
  /-- The source window of a chunk ends past the old data. -/
  | sourceWindow (start length oldSize : Nat)
  /-- More output than the target has room for. -/
  | targetFull (excess : Nat)
  deriving Repr, DecidableEq

def RangeFault.message : RangeFault → String
  | .diffRun length start newSize =>
    "diff run of " ++ toString length ++ " at " ++ toString start ++ " exceeds new size " ++
      toString newSize
  | .extraRun length start newSize =>
    "extra run of " ++ toString length ++ " at " ++ toString start ++ " exceeds new size " ++
      toString newSize
  | .oldPosition length position =>
    "diff run of " ++ toString length ++ " at old offset " ++ toString position ++ " overflows"
  | .sourceWindow start length oldSize =>
    "source " ++ toString start ++ "+" ++ toString length ++ " exceeds old size " ++
      toString oldSize
  | .targetFull excess => "patch output exceeds target by " ++ toString excess ++ " bytes"

/-- The compressed stream that failed, or the adapter that was used out of turn. -/
inductive CodecStage
  | controlStream
  | diffStream
  | extraStream
  | inflate
  | lz4Frame
  | lz4LegacyBlock
  /-- A write or flush reached an adapter that is not open. -/
  | notOpen (adapter : String)
  deriving Repr, DecidableEq

def CodecStage.message : CodecStage → String
  | .controlStream => "control stream"
  | .diffStream => "diff stream"
  | .extraStream => "extra stream"
  | .inflate => "inflate"
  | .lz4Frame => "lz4 frame"
  | .lz4LegacyBlock => "lz4 legacy block"
  | .notOpen adapter => adapter ++ " adapter used before open"

/-- Why a patch cannot be read or applied. -/
inductive PatchError
  | corruptHeader (fault : HeaderFault)
  | outOfRange (fault : RangeFault)
  | sizeMismatch (expected actual : Nat)
  | codec (stage : CodecStage)
  | os (error : OsError)
  deriving Repr, DecidableEq

def PatchError.message : PatchError → String
  | .corruptHeader fault => "corrupt patch header: " ++ fault.message
  | .outOfRange fault => "patch range out of bounds: " ++ fault.message
  | .sizeMismatch expected actual =>
    "size mismatch: expected " ++ toString expected ++ " bytes, got " ++ toString actual
  | .codec stage => "codec error: " ++ stage.message
  | .os error => "I/O error: " ++ error.message

end BlockUpdate
