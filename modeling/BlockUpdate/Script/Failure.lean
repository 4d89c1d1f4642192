import BlockUpdate.Script.Command
import BlockUpdate.Script.NewData
import BlockUpdate.Stash

/-!
# Why a command fails

A command that fails stops its script. The failure of a device is told apart from all others,
because another attempt may get past it.
-/

namespace BlockUpdate

/-- Why a command fails. -/
inductive CommandFailure
  | command (error : CommandError)
  | block (error : BlockError)
  | stash (error : StashError)
  | patch (error : PatchError)
  | feed (error : FeedError)
  /-- Blocks cannot be read. -/
  | unreadable (set : BlockSet)
  /-- The source has another digest, and the stash does not hold it. -/
  | sourceMismatch (expected : String)
  /-- The target has another digest after the command wrote it. -/
  | targetMismatch (expected : String)
  /-- What a dry run produced has another size or digest. -/
  | outputMismatch (expected : String)
  /-- Blocks to be stashed have another digest. -/
  | stashMismatch (expected : String)
  /-- The stash would hold more entries than it may. -/
  | tooManyEntries (held limit : Nat)
  /-- The stash would hold more blocks than it may. -/
  | tooManyBlocks (held limit : Nat)
  /-- New data is wanted and there is none. -/
  | noNewData
  deriving Repr, DecidableEq

/-- Whether a device or directory failed with an input/output error. -/
def CommandFailure.isIo : CommandFailure → Bool
  | .block error | .command (.block error) => error.isIo
  | .feed error => error.isIo
  | .stash error => error.isIo
  | .patch (.os error) => error.isIo
  | _ => false

end BlockUpdate
