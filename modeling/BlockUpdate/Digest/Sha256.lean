import BlockUpdate.Bytes

/-!
# SHA-256

The digest that names stash entries and pins partition contents.

- `Sha256.compress`: one block of sixty-four bytes into the chaining state.
- `Sha256.digest`: the thirty-two bytes of a whole message, with its padding.
-/

namespace BlockUpdate.Sha256

/-- The round constants. -/
def roundConstants : Array UInt32 := #[
  0x428a2f98, 0x71374491, 0xb5c0fbcf, 0xe9b5dba5, 0x3956c25b, 0x59f111f1, 0x923f82a4, 0xab1c5ed5,
  0xd807aa98, 0x12835b01, 0x243185be, 0x550c7dc3, 0x72be5d74, 0x80deb1fe, 0x9bdc06a7, 0xc19bf174,
  0xe49b69c1, 0xefbe4786, 0x0fc19dc6, 0x240ca1cc, 0x2de92c6f, 0x4a7484aa, 0x5cb0a9dc, 0x76f988da,
  0x983e5152, 0xa831c66d, 0xb00327c8, 0xbf597fc7, 0xc6e00bf3, 0xd5a79147, 0x06ca6351, 0x14292967,
  0x27b70a85, 0x2e1b2138, 0x4d2c6dfc, 0x53380d13, 0x650a7354, 0x766a0abb, 0x81c2c92e, 0x92722c85,
  0xa2bfe8a1, 0xa81a664b, 0xc24b8b70, 0xc76c51a3, 0xd192e819, 0xd6990624, 0xf40e3585, 0x106aa070,
  0x19a4c116, 0x1e376c08, 0x2748774c, 0x34b0bcb5, 0x391c0cb3, 0x4ed8aa4a, 0x5b9cca4f, 0x682e6ff3,
  0x748f82ee, 0x78a5636f, 0x84c87814, 0x8cc70208, 0x90befffa, 0xa4506ceb, 0xbef9a3f7, 0xc67178f2]

/-- The chaining state: eight words. -/
structure State where
  a : UInt32
  b : UInt32
  c : UInt32
  d : UInt32
  e : UInt32
  f : UInt32
  g : UInt32
  h : UInt32
  deriving Repr, DecidableEq

/-- The state before the first block. -/
def State.initial : State where
  a := 0x6a09e667
  b := 0xbb67ae85
  c := 0x3c6ef372
  d := 0xa54ff53a
  e := 0x510e527f
  f := 0x9b05688c
  g := 0x1f83d9ab
  h := 0x5be0cd19

/-- Word-wise sum of two states. -/
def State.add (s t : State) : State where
  a := s.a + t.a
  b := s.b + t.b
  c := s.c + t.c
  d := s.d + t.d
  e := s.e + t.e
  f := s.f + t.f
  g := s.g + t.g
  h := s.h + t.h

/-- Rotation to the right; `n` is between 1 and 31. -/
@[inline] def rotr (x : UInt32) (n : UInt32) : UInt32 := (x >>> n) ||| (x <<< (32 - n))

@[inline] def smallSigma0 (x : UInt32) : UInt32 := rotr x 7 ^^^ rotr x 18 ^^^ (x >>> 3)
@[inline] def smallSigma1 (x : UInt32) : UInt32 := rotr x 17 ^^^ rotr x 19 ^^^ (x >>> 10)
@[inline] def bigSigma0 (x : UInt32) : UInt32 := rotr x 2 ^^^ rotr x 13 ^^^ rotr x 22
@[inline] def bigSigma1 (x : UInt32) : UInt32 := rotr x 6 ^^^ rotr x 11 ^^^ rotr x 25
@[inline] def choose (e f g : UInt32) : UInt32 := (e &&& f) ^^^ ((~~~e) &&& g)
@[inline] def majority (a b c : UInt32) : UInt32 := (a &&& b) ^^^ (a &&& c) ^^^ (b &&& c)

/-- The big-endian word at `start`. -/
@[inline] def wordAt (b : Bytes) (start : Nat) : UInt32 :=
  ((b.get! start).toUInt32 <<< 24) ||| ((b.get! (start + 1)).toUInt32 <<< 16) |||
    ((b.get! (start + 2)).toUInt32 <<< 8) ||| (b.get! (start + 3)).toUInt32

/-- Appends `n` message words read from `start` on. -/
def inputWords (b : Bytes) (start : Nat) : Nat → Array UInt32 → Array UInt32
  | 0, w => w
  | n + 1, w => inputWords b (start + 4) n (w.push (wordAt b start))

/-- Appends `n` words of the schedule, each from four earlier ones. -/
def extendWords : Nat → Array UInt32 → Array UInt32
  | 0, w => w
  | n + 1, w =>
    let i := w.size
    extendWords n
      (w.push (smallSigma1 w[i - 2]! + w[i - 7]! + smallSigma0 w[i - 15]! + w[i - 16]!))

/-- The sixty-four words of the block at `start`. -/
def schedule (b : Bytes) (start : Nat) : Array UInt32 :=
  extendWords 48 (inputWords b start 16 (Array.emptyWithCapacity 64))

/-- The last `n` rounds over a schedule. -/
def rounds (w : Array UInt32) :
    Nat → (a b c d e f g h : UInt32) → State
  | 0, a, b, c, d, e, f, g, h => ⟨a, b, c, d, e, f, g, h⟩
  | n + 1, a, b, c, d, e, f, g, h =>
    let i := 63 - n
    let t1 := h + bigSigma1 e + choose e f g + roundConstants[i]! + w[i]!
    let t2 := bigSigma0 a + majority a b c
    rounds w n (t1 + t2) a b c (d + t1) e f g

/-- Folds the block at `start` into the state. -/
def compress (s : State) (b : Bytes) (start : Nat) : State :=
  s.add (rounds (schedule b start) 64 s.a s.b s.c s.d s.e s.f s.g s.h)

/-- Folds `n` consecutive blocks into the state. -/
def compressBlocks (b : Bytes) : Nat → Nat → State → State
  | 0, _, s => s
  | n + 1, start, s => compressBlocks b n (start + 64) (compress s b start)

/-- The `width` low bytes of a number, most significant first. -/
def bigEndian : Nat → Nat → List UInt8
  | 0, _ => []
  | width + 1, n => UInt8.ofNat (n / 256 ^ width % 256) :: bigEndian width n

/-- What follows a message of the given size: a one bit, zeros, and the length in bits. -/
def padding (size : Nat) : Bytes :=
  ((Bytes.ofList [0x80]) ++ Bytes.zeros ((119 - size % 64) % 64)) ++
    Bytes.ofList (bigEndian 8 (size * 8 % 2 ^ 64))

/-- The bytes of a state. -/
def State.bytes (s : State) : Bytes :=
  Bytes.ofList ([s.a, s.b, s.c, s.d, s.e, s.f, s.g, s.h].flatMap fun w => bigEndian 4 w.toNat)

/-- The SHA-256 digest of a message. -/
def digest (message : Bytes) : Bytes :=
  let whole := message.size / 64
  let rest := message.dropFirst (64 * whole) ++ padding message.size
  (compressBlocks rest (rest.size / 64) 0 (compressBlocks message whole 0 State.initial)).bytes

end BlockUpdate.Sha256
