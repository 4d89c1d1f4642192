import BlockUpdate.Digest.Sha256

/-!
# SHA-512

The digest inside Ed25519 signatures. It has the structure of SHA-256, with words of sixty-four
bits, blocks of 128 bytes and eighty rounds.

- `Sha512.compress`: one block into the chaining state.
- `Sha512.digest`: the sixty-four bytes of a whole message, with its padding.
-/

namespace BlockUpdate.Sha512

/-- The round constants. -/
def roundConstants : Array UInt64 := #[
  0x428a2f98d728ae22, 0x7137449123ef65cd, 0xb5c0fbcfec4d3b2f, 0xe9b5dba58189dbbc,
  0x3956c25bf348b538, 0x59f111f1b605d019, 0x923f82a4af194f9b, 0xab1c5ed5da6d8118,
  0xd807aa98a3030242, 0x12835b0145706fbe, 0x243185be4ee4b28c, 0x550c7dc3d5ffb4e2,
  0x72be5d74f27b896f, 0x80deb1fe3b1696b1, 0x9bdc06a725c71235, 0xc19bf174cf692694,
  0xe49b69c19ef14ad2, 0xefbe4786384f25e3, 0x0fc19dc68b8cd5b5, 0x240ca1cc77ac9c65,
  0x2de92c6f592b0275, 0x4a7484aa6ea6e483, 0x5cb0a9dcbd41fbd4, 0x76f988da831153b5,
  0x983e5152ee66dfab, 0xa831c66d2db43210, 0xb00327c898fb213f, 0xbf597fc7beef0ee4,
  0xc6e00bf33da88fc2, 0xd5a79147930aa725, 0x06ca6351e003826f, 0x142929670a0e6e70,
  0x27b70a8546d22ffc, 0x2e1b21385c26c926, 0x4d2c6dfc5ac42aed, 0x53380d139d95b3df,
  0x650a73548baf63de, 0x766a0abb3c77b2a8, 0x81c2c92e47edaee6, 0x92722c851482353b,
  0xa2bfe8a14cf10364, 0xa81a664bbc423001, 0xc24b8b70d0f89791, 0xc76c51a30654be30,
  0xd192e819d6ef5218, 0xd69906245565a910, 0xf40e35855771202a, 0x106aa07032bbd1b8,
  0x19a4c116b8d2d0c8, 0x1e376c085141ab53, 0x2748774cdf8eeb99, 0x34b0bcb5e19b48a8,
  0x391c0cb3c5c95a63, 0x4ed8aa4ae3418acb, 0x5b9cca4f7763e373, 0x682e6ff3d6b2b8a3,
  0x748f82ee5defb2fc, 0x78a5636f43172f60, 0x84c87814a1f0ab72, 0x8cc702081a6439ec,
  0x90befffa23631e28, 0xa4506cebde82bde9, 0xbef9a3f7b2c67915, 0xc67178f2e372532b,
  0xca273eceea26619c, 0xd186b8c721c0c207, 0xeada7dd6cde0eb1e, 0xf57d4f7fee6ed178,
  0x06f067aa72176fba, 0x0a637dc5a2c898a6, 0x113f9804bef90dae, 0x1b710b35131c471b,
  0x28db77f523047d84, 0x32caab7b40c72493, 0x3c9ebe0a15c9bebc, 0x431d67c49c100d4c,
  0x4cc5d4becb3e42b6, 0x597f299cfc657e2a, 0x5fcb6fab3ad6faec, 0x6c44198c4a475817]

/-- The chaining state: eight words. -/
structure State where
  a : UInt64
  b : UInt64
  c : UInt64
  d : UInt64
  e : UInt64
  f : UInt64
  g : UInt64
  h : UInt64
  deriving Repr, DecidableEq

/-- The state before the first block. -/
def State.initial : State where
  a := 0x6a09e667f3bcc908
  b := 0xbb67ae8584caa73b
  c := 0x3c6ef372fe94f82b
  d := 0xa54ff53a5f1d36f1
  e := 0x510e527fade682d1
  f := 0x9b05688c2b3e6c1f
  g := 0x1f83d9abfb41bd6b
  h := 0x5be0cd19137e2179

/-- Word-wise sum of two states. -/
def State.add (s t : State) : State where
  a := s.a + t.a
  b := s.b + t.b
  c := s.c + t.c
  d := s.d + t.d
  e := s.e + t.e
  f := s.f + t.f
  g := s.g + t.g
  h := s.h + t.h

/-- Rotation to the right; `n` is between 1 and 63. -/
@[inline] def rotr (x : UInt64) (n : UInt64) : UInt64 := (x >>> n) ||| (x <<< (64 - n))

@[inline] def smallSigma0 (x : UInt64) : UInt64 := rotr x 1 ^^^ rotr x 8 ^^^ (x >>> 7)
@[inline] def smallSigma1 (x : UInt64) : UInt64 := rotr x 19 ^^^ rotr x 61 ^^^ (x >>> 6)
@[inline] def bigSigma0 (x : UInt64) : UInt64 := rotr x 28 ^^^ rotr x 34 ^^^ rotr x 39
@[inline] def bigSigma1 (x : UInt64) : UInt64 := rotr x 14 ^^^ rotr x 18 ^^^ rotr x 41
@[inline] def choose (e f g : UInt64) : UInt64 := (e &&& f) ^^^ ((~~~e) &&& g)
@[inline] def majority (a b c : UInt64) : UInt64 := (a &&& b) ^^^ (a &&& c) ^^^ (b &&& c)

/-- The big-endian number of `n` bytes from `start` on, behind the bytes read before. -/
def wordFrom (b : Bytes) : Nat → Nat → UInt64 → UInt64
  | 0, _, word => word
  | n + 1, start, word => wordFrom b n (start + 1) ((word <<< 8) ||| (b.get! start).toUInt64)

/-- Appends `n` message words read from `start` on. -/
def inputWords (b : Bytes) (start : Nat) : Nat → Array UInt64 → Array UInt64
  | 0, w => w
  | n + 1, w => inputWords b (start + 8) n (w.push (wordFrom b 8 start 0))

/-- Appends `n` words of the schedule, each from four earlier ones. -/
def extendWords : Nat → Array UInt64 → Array UInt64
  | 0, w => w
  | n + 1, w =>
    let i := w.size
    extendWords n
      (w.push (smallSigma1 w[i - 2]! + w[i - 7]! + smallSigma0 w[i - 15]! + w[i - 16]!))

/-- The eighty words of the block at `start`. -/
def schedule (b : Bytes) (start : Nat) : Array UInt64 :=
  extendWords 64 (inputWords b start 16 (Array.emptyWithCapacity 80))

/-- The last `n` rounds over a schedule. -/
def rounds (w : Array UInt64) :
    Nat → (a b c d e f g h : UInt64) → State
  | 0, a, b, c, d, e, f, g, h => ⟨a, b, c, d, e, f, g, h⟩
  | n + 1, a, b, c, d, e, f, g, h =>
    let i := 79 - n
    let t1 := h + bigSigma1 e + choose e f g + roundConstants[i]! + w[i]!
    let t2 := bigSigma0 a + majority a b c
    rounds w n (t1 + t2) a b c (d + t1) e f g

/-- Folds the block at `start` into the state. -/
def compress (s : State) (b : Bytes) (start : Nat) : State :=
  s.add (rounds (schedule b start) 80 s.a s.b s.c s.d s.e s.f s.g s.h)

/-- Folds `n` consecutive blocks into the state. -/
def compressBlocks (b : Bytes) : Nat → Nat → State → State
  | 0, _, s => s
  | n + 1, start, s => compressBlocks b n (start + 128) (compress s b start)

/-- What follows a message of the given size: a one bit, zeros, and the length in bits. -/
def padding (size : Nat) : Bytes :=
  ((Bytes.ofList [0x80]) ++ Bytes.zeros ((239 - size % 128) % 128)) ++
    Bytes.ofList (Sha256.bigEndian 16 (size * 8 % 2 ^ 128))

/-- The bytes of a state. -/
def State.bytes (s : State) : Bytes :=
  Bytes.ofList
    ([s.a, s.b, s.c, s.d, s.e, s.f, s.g, s.h].flatMap fun w => Sha256.bigEndian 8 w.toNat)

/-- The SHA-512 digest of a message. -/
def digest (message : Bytes) : Bytes :=
  let padded := message ++ padding message.size
  (compressBlocks padded (padded.size / 128) 0 State.initial).bytes

end BlockUpdate.Sha512
