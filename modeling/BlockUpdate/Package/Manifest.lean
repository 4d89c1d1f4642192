import BlockUpdate.Package.Error
import BlockUpdate.Primitives
import BlockUpdate.Signature.Ed25519
import BlockUpdate.Text.Blank

/-!
# Signed manifests

A manifest lists the digests that partitions should have. It is written as records: the number of
partitions, then a name, a digest and a length for each, and then a signature over the SHA-256 of
everything before it.

- `Manifest.encode`: the records of a manifest, signed.
- `Manifest.parse`: the manifest at the front of a byte string, if its signature verifies; gives
  its size too. What follows it is passed over.
- `SignatureOracle`: what signs and verifies; `Ed25519.oracle` and `Ed25519.verifier` make one.
-/

namespace BlockUpdate

/-! ## Oracles -/

/-- What signs digests and verifies their signatures. -/
structure SignatureOracle where
  sign : Bytes → Except SignatureFault Bytes
  /-- Whether a signature belongs to a digest. -/
  verify : Bytes → Bytes → Bool

namespace Ed25519

/-- Verifies under a public key, and signs nothing. -/
def PublicKey.oracle (key : PublicKey) : SignatureOracle where
  sign _ := .error .noSigningKey
  verify := key.verify

/-- The public key of thirty-two bytes. -/
def publicKey (bytes : Bytes) : Except SignatureFault PublicKey :=
  match PublicKey.ofBytes bytes with
  | some key => .ok key
  | none => .error .badKey

/-- The public key in hexadecimal, perhaps with blanks around it. -/
def publicKeyOfHex (text : String) : Except SignatureFault PublicKey := do
  let bytes ← (Hex.decode (Blank.trim text)).mapError .badHex
  if bytes.size ≠ keySize then
    throw .wrongKeySize
  publicKey bytes

/-- Signs under a secret and verifies under its public key. -/
def secretOracle (secret : Bytes) : SignatureOracle where
  sign message := .ok (sign secret message)
  verify message signature :=
    match PublicKey.ofBytes (publicOf secret) with
    | some key => key.verify message signature
    | none => false

end Ed25519

/-! ## Manifests -/

/-- The digest that the first `length` bytes of a partition should have. -/
structure PartitionHash where
  name : String
  /-- The digest in hexadecimal. -/
  sha256 : String
  length : Nat
  deriving Repr, DecidableEq

/-- The partitions of an update. -/
structure Manifest where
  partitions : List PartitionHash
  deriving Repr, DecidableEq

namespace Manifest

def countTag : Nat := 1
def nameTag : Nat := 2
def hashTag : Nat := 3
def lengthTag : Nat := 4
def signatureTag : Nat := 5

/-! ## Writing -/

/-- The records of one partition. -/
def encodePartition (p : PartitionHash) : Except RecordFault Bytes := do
  let name ← Record.encode .short ⟨nameTag, Bytes.ofText p.name⟩
  let hash ← Record.encode .short ⟨hashTag, Bytes.ofText p.sha256⟩
  let length ← Record.encode .short ⟨lengthTag, LittleEndian.encode 8 p.length⟩
  return name ++ hash ++ length

/-- Everything before the signature. -/
def encodeBody (m : Manifest) : Except RecordFault Bytes := do
  if 256 ^ 2 ≤ m.partitions.length then
    throw .tooManyPartitions
  let count ← Record.encode .short ⟨countTag, LittleEndian.encode 2 m.partitions.length⟩
  return count ++ Bytes.join (← m.partitions.mapM encodePartition)

/-- The bytes of a manifest, with the oracle's signature. -/
def encode (P : Primitives) (oracle : SignatureOracle) (m : Manifest) :
    Except PackageError Bytes := do
  let body ← m.encodeBody.mapError .record
  let signature ← (oracle.sign (P.sha256 body)).mapError .signature
  let last ← (Record.encode .long ⟨signatureTag, signature⟩).mapError .record
  return body ++ last

/-! ## Reading

The digest is fed with the records that are read, one after the other; `digested` is what it was
given so far. -/

/-- The next record, which has the given tag. -/
def readTagged (form : RecordForm) (tag : Nat) (r : RecordReader) :
    Except RecordFault (ReadRecord × RecordReader) := do
  let (record, r) ← r.read form
  let _ ← record.expect tag
  return (record, r)

/-- The next partition. Its three records are read before any of them is decoded. -/
def readPartition (digested : Bytes) (r : RecordReader) :
    Except RecordFault (PartitionHash × Bytes × RecordReader) := do
  let (name, r) ← readTagged .short nameTag r
  let (hash, r) ← readTagged .short hashTag r
  let (length, r) ← readTagged .short lengthTag r
  let digested := digested ++ name.raw ++ hash.raw ++ length.raw
  return (⟨← name.text, Hex.lowerAscii (← hash.text), ← length.number 8⟩, digested, r)

/-- The next `n` partitions. -/
def readPartitions : Nat → Bytes → RecordReader →
    Except RecordFault (List PartitionHash × Bytes × RecordReader)
  | 0, digested, r => return ([], digested, r)
  | n + 1, digested, r => do
    let (partition, digested, r) ← readPartition digested r
    let (rest, digested, r) ← readPartitions n digested r
    return (partition :: rest, digested, r)

/-- Everything before the signature. -/
def readBody (r : RecordReader) : Except RecordFault (Manifest × Bytes × RecordReader) := do
  let (count, r) ← readTagged .short countTag r
  let (partitions, digested, r) ← readPartitions (← count.number 2) count.raw r
  return (⟨partitions⟩, digested, r)

/-- The manifest at the front of a byte string, and its size. -/
def parse (P : Primitives) (oracle : SignatureOracle) (data : Bytes) :
    Except PackageError (Manifest × Nat) := do
  let (m, digested, r) ← (readBody { data }).mapError .record
  let (signature, r) ← (readTagged .long signatureTag r).mapError .record
  if !oracle.verify (P.sha256 digested) signature.value then
    throw (.signature .rejected)
  return (m, r.position)

end Manifest

end BlockUpdate
