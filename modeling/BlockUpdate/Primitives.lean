import BlockUpdate.Codec.Deflate
import BlockUpdate.Codec.Lz4

/-!
# The digest and the codecs that updates rely on

Everything above this module is a function of these primitives, so its laws can assume of them
just what they need. The record holds no law; a statement that needs one, such as that decoding
inverts encoding, names it as a hypothesis.
-/

namespace BlockUpdate

/-- A digest and the codecs of patches. -/
structure Primitives where
  /-- The digest that identifies contents. -/
  sha256 : Bytes → Bytes
  /-- Decodes the first bzip2 stream of a byte string. -/
  bunzip2 : Bytes → Decoded
  bzip2 : Bytes → Bytes
  /-- Decodes a deflate member in its container. -/
  inflate : DeflateContainer → Bytes → Decoded
  deflater : DeflateParams → Encoder
  /-- Decodes a standard lz4 frame. -/
  unlz4 : Bytes → Decoded
  lz4er : Lz4Params → Encoder
  /-- Decodes one lz4 block into at most the given number of bytes. -/
  unlz4Block : Nat → Bytes → Option Bytes
  lz4Block : Bytes → Bytes

end BlockUpdate
