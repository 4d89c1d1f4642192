import BlockUpdate.Codec.Bzip2Encoder
import BlockUpdate.Codec.Deflater
import BlockUpdate.Digest.Sha256
import BlockUpdate.Primitives

/-!
# The primitives that a program runs with
-/

namespace BlockUpdate

/-- SHA-256, bzip2, deflate and lz4 as the library implements them. -/
def Primitives.standard : Primitives where
  sha256 := Sha256.digest
  bunzip2 := Bzip2.decode
  bzip2 := Bzip2Encoder.encode
  inflate := Deflate.decode
  deflater := Deflater.encoder
  unlz4 := Lz4.Frame.decode
  lz4er := Lz4.Frame.encoder
  unlz4Block := Lz4.Block.decode
  lz4Block := Lz4.Block.encode

end BlockUpdate
