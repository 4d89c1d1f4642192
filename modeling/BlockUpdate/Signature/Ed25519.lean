import BlockUpdate.Bytes.LittleEndian
import BlockUpdate.Digest.Sha512
import BlockUpdate.Signature.Curve

/-!
# Ed25519

- `Ed25519.sign`: the signature of a message under a secret of thirty-two bytes.
- `Ed25519.PublicKey.verify`: whether a signature belongs to a message. The equation is checked
  without the cofactor, and the second half of the signature must be reduced.
-/

namespace BlockUpdate.Ed25519

/-- Size of secrets, public keys and each half of a signature. -/
def keySize : Nat := 32

/-- The factor that parts of a message are digested to. -/
def factorOf (parts : List Bytes) : Nat :=
  LittleEndian.decode (Sha512.digest (Bytes.join parts)) % Curve.order

/-- A multiple of the base point, as bytes. -/
def basePoint (factor : Nat) : Bytes :=
  LittleEndian.encode keySize (Curve.Point.base.scale factor).compress

/-- The factor of a secret: the first half of its digest, with the highest bit but one set and
the bits beside the ends cleared. -/
def secretFactor (secret : Bytes) : Nat :=
  let half := LittleEndian.decode ((Sha512.digest secret).takeFirst keySize)
  half % 2 ^ 254 / 8 * 8 + 2 ^ 254

/-- The public key of a secret. -/
def publicOf (secret : Bytes) : Bytes := basePoint (secretFactor secret)

/-- The signature of a message. -/
def sign (secret message : Bytes) : Bytes :=
  let factor := secretFactor secret
  let nonce := factorOf [(Sha512.digest secret).dropFirst keySize, message]
  let point := basePoint nonce
  let challenge := factorOf [point, basePoint factor, message]
  point ++ LittleEndian.encode keySize ((challenge * factor + nonce) % Curve.order)

/-- A public key: its bytes and their point. -/
structure PublicKey where
  bytes : Bytes
  point : Curve.Point

namespace PublicKey

/-- The key of thirty-two bytes, if they denote a point. -/
def ofBytes (bytes : Bytes) : Option PublicKey := do
  return ⟨bytes, ← Curve.Point.decompress (LittleEndian.decode bytes)⟩

/-- Whether a signature belongs to a message. -/
def verify (key : PublicKey) (message signature : Bytes) : Bool :=
  let point := signature.takeFirst keySize
  let factor := LittleEndian.decode (signature.dropFirst keySize)
  if signature.size = 2 * keySize ∧ factor < Curve.order then
    let challenge := factorOf [point, key.bytes, message]
    let expected := (Curve.Point.base.scale factor).add (key.point.neg.scale challenge)
    LittleEndian.encode keySize expected.compress = point
  else false

end PublicKey

end BlockUpdate.Ed25519
