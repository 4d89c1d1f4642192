import BlockUpdate.Bytes.Hex
import BlockUpdate.OsError
import BlockUpdate.Package.Record

/-!
# Why a package cannot be used
-/

namespace BlockUpdate

/-- What is wrong with the name of a member. -/
inductive NameFault
  | empty
  /-- The name starts at the top. -/
  | absolute (name : String)
  /-- The name leads out of the package. -/
  | escapes (name : String)
  deriving Repr, DecidableEq

def NameFault.message : NameFault → String
  | .empty => "empty name"
  | .absolute name => "absolute member: " ++ name
  | .escapes name => "member escapes package root: " ++ name

/-- What is wrong with a key or a signature. -/
inductive SignatureFault
  | badHex (fault : Hex.Fault)
  | wrongKeySize
  /-- The bytes of a public key denote no point. -/
  | badKey
  /-- A public key cannot sign. -/
  | noSigningKey
  /-- The signature of a manifest does not verify. -/
  | rejected
  deriving Repr, DecidableEq

def SignatureFault.message : SignatureFault → String
  | .badHex fault => "bad public key hex: " ++ fault.message
  | .wrongKeySize => "public key must be 32 bytes"
  | .badKey => "bad public key"
  | .noSigningKey => "no signing key loaded"
  | .rejected => "manifest signature does not verify"

/-- Why a package cannot be used. -/
inductive PackageError
  | os (error : OsError)
  | notFound (name : String)
  | invalidName (fault : NameFault)
  | record (fault : RecordFault)
  | signature (fault : SignatureFault)
  /-- A partition has another digest than its manifest says. -/
  | hashMismatch (partition expected actual : String)
  deriving Repr, DecidableEq

def PackageError.message : PackageError → String
  | .os error => "I/O error: " ++ error.message
  | .notFound name => "package member not found: " ++ name
  | .invalidName fault => "invalid member name: " ++ fault.message
  | .record fault => "malformed record: " ++ fault.message
  | .signature fault => "signature error: " ++ fault.message
  | .hashMismatch partition expected actual =>
    "hash mismatch for " ++ partition ++ ": expected " ++ expected ++ ", got " ++ actual

end BlockUpdate
