import BlockUpdate.Package.Error
import BlockUpdate.Script.Failure
import BlockUpdate.Script.Header

/-!
# Why a script stops
-/

namespace BlockUpdate

/-- Why a script stops, or what it keeps between sessions cannot be read. -/
inductive TransferError
  | os (error : OsError)
  /-- A file that was kept is not in its form. -/
  | malformed
  | header (fault : ScriptFault)
  /-- The transfer list is not text. -/
  | notText (fault : Utf8.Fault)
  | command (error : CommandError)
  /-- The command on a line failed. -/
  | commandFailed (index : Nat) (line : String)
  /-- The device failed while the command on a line ran. -/
  | retryRequested (index : Nat) (line : String)
  | stash (error : StashError)
  | package (error : PackageError)
  deriving Repr, DecidableEq

def TransferError.message : TransferError → String
  | .os error => "I/O error: " ++ error.message
  | .malformed => "JSON error"
  | .header fault => "bad transfer list header: " ++ fault.message
  | .notText fault =>
    "bad transfer list header: transfer list is not UTF-8: " ++ fault.message
  | .command error => "bad command: " ++ error.message
  | .commandFailed index line => "command " ++ toString index ++ " failed: " ++ line
  | .retryRequested index line => "command " ++ toString index ++ " needs a retry: " ++ line
  | .stash error => "stash error: " ++ error.message
  | .package error => "package error: " ++ error.message

end BlockUpdate
