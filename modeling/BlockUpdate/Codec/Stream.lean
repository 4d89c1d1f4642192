import BlockUpdate.Bytes

/-!
# Compressed streams

- `Decoded`: what a decoder yields for a whole input: a fixed string of bytes, ending in the end
  of the stream or in an error. How much of it a reader asks for at a time makes no difference.
- `Encoder`: a streaming compressor, by its state and what each step adds to the output.
-/

namespace BlockUpdate

/-- The bytes that can be read from a compressed stream, and whether an error follows them. -/
structure Decoded where
  bytes : Bytes
  failed : Bool
  deriving DecidableEq

/-- A streaming compressor. -/
structure Encoder where
  State : Type
  start : State
  /-- Takes more input; gives the output that became ready. -/
  write : State → Bytes → State × Bytes
  /-- Ends the stream; gives the rest of the output. -/
  finish : State → Bytes

namespace Encoder

/-- The state and the whole output after a list of writes. -/
def writeAll (E : Encoder) : List Bytes → E.State → Bytes → E.State × Bytes
  | [], s, out => (s, out)
  | piece :: rest, s, out =>
    let (s, ready) := E.write s piece
    writeAll E rest s (out ++ ready)

/-- The stream that a list of writes produces. -/
def encode (E : Encoder) (pieces : List Bytes) : Bytes :=
  let (s, out) := E.writeAll pieces E.start ByteArray.empty
  out ++ E.finish s

/-- The encoder that gathers its input and compresses it at the end. -/
def ofWhole (compress : Bytes → Bytes) : Encoder where
  State := Bytes
  start := ByteArray.empty
  write s piece := (s ++ piece, ByteArray.empty)
  finish := compress

end Encoder

end BlockUpdate
