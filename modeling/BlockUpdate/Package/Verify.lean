import BlockUpdate.BlockIo
import BlockUpdate.Package.Manifest
import BlockUpdate.Package.Member

/-!
# Checking partitions against a manifest

- `Manifest.fileDigest`: the digest of the first bytes of a file.
- `Manifest.verify`: checks every partition; the first failure in the order of the manifest
  counts.
-/

namespace BlockUpdate.Manifest

/-- The digest of the first `length` bytes of a file in hexadecimal. Of a directory nothing can be
read. -/
def fileDigest (P : Primitives) (t : FileTree) (p : Path) (length : Nat) :
    Except PackageError String := do
  let data ← match ← (t.node p).mapError .os with
    | .file data => pure data
    | .directory =>
      if length = 0 then pure ByteArray.empty else throw (.os (.errno Errno.isDirectory))
  if data.size < length then
    throw (.os (.endedEarly (p.text ++ " holds " ++ toString data.size ++ " of " ++
      toString length ++ " bytes")))
  return Checksum.text P (data.takeFirst length)

/-- Checks one partition, which is in the given file. -/
def verifyPartition (P : Primitives) (t : FileTree) (partition : PartitionHash) (p : Path) :
    Except PackageError Unit := do
  let actual ← fileDigest P t p partition.length
  if !Hex.sameDigest actual partition.sha256 then
    throw (.hashMismatch partition.name partition.sha256 actual)

/-- Checks all partitions; `resolve` gives the file of each. -/
def verify (P : Primitives) (t : FileTree) (resolve : String → Path) (m : Manifest) :
    Except PackageError Unit :=
  m.partitions.forM fun partition => verifyPartition P t partition (resolve partition.name)

end BlockUpdate.Manifest
