import BlockUpdate.Bytes

/-!
# Reading and writing bits

A decoder walks over the bits of its input and gathers output; an error keeps the output gathered
so far.

- `BitReader`: input, position in bits, output.
- `Decoder`: computations over it, with `corrupt` and `truncated` as the two ways to fail.
- `BitWriter`: gathers bits into bytes.

Deflate numbers the bits of a byte from the low end, bzip2 from the high end; each has its own
pair of functions.
-/

namespace BlockUpdate

/-- Why a compressed stream cannot be decoded further. -/
inductive StreamFault
  /-- The stream breaks its format. -/
  | corrupt
  /-- The input ends before the stream does. -/
  | truncated
  deriving Repr, DecidableEq

/-- Input, position and output of a decoder. -/
structure BitReader where
  input : Bytes
  /-- Position in bits. -/
  position : Nat
  output : Bytes

/-- Decoding steps; a failed step leaves the reader where it was when it failed. -/
abbrev Decoder := EStateM StreamFault BitReader

namespace Decoder

/-- The next bit, the low bit of each byte first. -/
def lowBit : Decoder Nat := do
  let r ← get
  let p := r.position
  if p / 8 < r.input.size then
    set { r with position := p + 1 }
    return ((r.input.get! (p / 8)).toNat >>> (p % 8)) % 2
  else throw .truncated

/-- The next bit, the high bit of each byte first. -/
def highBit : Decoder Nat := do
  let r ← get
  let p := r.position
  if p / 8 < r.input.size then
    set { r with position := p + 1 }
    return ((r.input.get! (p / 8)).toNat >>> (7 - p % 8)) % 2
  else throw .truncated

/-- A number of `n` bits, its low bit first. -/
def lowBits : Nat → Decoder Nat
  | 0 => return 0
  | n + 1 => do
    let bit ← lowBit
    return bit + 2 * (← lowBits n)

/-- A number of `n` bits, its high bit first, behind the bits of `acc`. -/
def highBitsFrom : Nat → Nat → Decoder Nat
  | 0, acc => return acc
  | n + 1, acc => do highBitsFrom n (2 * acc + (← highBit))

/-- A number of `n` bits, its high bit first. -/
def highBits (n : Nat) : Decoder Nat := highBitsFrom n 0

/-- Moves to the next byte boundary. -/
def alignByte : Decoder Unit :=
  modify fun r => { r with position := (r.position + 7) / 8 * 8 }

/-- The next whole byte, from a byte boundary. -/
def byte : Decoder UInt8 := do
  let r ← get
  let p := r.position / 8
  if p < r.input.size then
    set { r with position := r.position + 8 }
    return r.input.get! p
  else throw .truncated

/-- An unsigned number of `n` bytes, low byte first, from a byte boundary. -/
def bytesLow : Nat → Decoder Nat
  | 0 => return 0
  | n + 1 => do
    let b ← byte
    return b.toNat + 256 * (← bytesLow n)

/-- Appends one byte to the output. -/
def push (b : UInt8) : Decoder Unit :=
  modify fun r => { r with output := r.output.push b }

/-- Copies `length` bytes that start `distance` bytes before the end of the output; what would lie
before its start reads as zero. -/
def copyBack (distance : Nat) (length : Nat) : Decoder Unit :=
  modify fun r => { r with output := copy distance length r.output }
where
  copy (distance : Nat) : Nat → Bytes → Bytes
    | 0, out => out
    | n + 1, out =>
      let b := if distance ≤ out.size ∧ 0 < distance then out.get! (out.size - distance) else 0
      copy distance n (out.push b)

/-- Runs a decoder over an input from its first bit. -/
def start {α : Type} (d : Decoder α) (input : Bytes) : EStateM.Result StreamFault BitReader α :=
  d.run { input, position := 0, output := ByteArray.empty }

end Decoder

/-- Bits gathered for output: whole bytes, and the `count` bits of `pending` behind them. -/
structure BitWriter where
  bytes : Bytes := ByteArray.empty
  pending : Nat := 0
  count : Nat := 0

namespace BitWriter

/-- Appends a bit behind the lower bits of the byte under way. -/
def putLowBit (w : BitWriter) (bit : Nat) : BitWriter :=
  let pending := w.pending + bit * 2 ^ w.count
  if w.count = 7 then { bytes := w.bytes.push (UInt8.ofNat pending) }
  else { w with pending, count := w.count + 1 }

/-- Appends a bit behind the higher bits of the byte under way. -/
def putHighBit (w : BitWriter) (bit : Nat) : BitWriter :=
  let pending := 2 * w.pending + bit
  if w.count = 7 then { bytes := w.bytes.push (UInt8.ofNat pending) }
  else { w with pending, count := w.count + 1 }

/-- Appends the `n` low bits of a number, low bit first, filling bytes from the low end. -/
def putLow (w : BitWriter) : Nat → Nat → BitWriter
  | 0, _ => w
  | n + 1, value => putLow (w.putLowBit (value % 2)) n (value / 2)

/-- Appends the `n` low bits of a number, high bit first, filling bytes from the low end. -/
def putCode (w : BitWriter) : Nat → Nat → BitWriter
  | 0, _ => w
  | n + 1, code => putCode (w.putLowBit (code / 2 ^ n % 2)) n code

/-- Appends the `n` low bits of a number, high bit first, filling bytes from the high end. -/
def putHigh (w : BitWriter) : Nat → Nat → BitWriter
  | 0, _ => w
  | n + 1, value => putHigh (w.putHighBit (value / 2 ^ n % 2)) n value

/-- The bytes, the last one filled up with zero bits at its high end. -/
def finishLow (w : BitWriter) : Bytes :=
  if w.count = 0 then w.bytes else w.bytes.push (UInt8.ofNat w.pending)

/-- The bytes, the last one filled up with zero bits at its low end. -/
def finishHigh (w : BitWriter) : Bytes :=
  if w.count = 0 then w.bytes else w.bytes.push (UInt8.ofNat (w.pending * 2 ^ (8 - w.count)))

end BitWriter

end BlockUpdate
