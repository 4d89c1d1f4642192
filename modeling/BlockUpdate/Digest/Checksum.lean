import BlockUpdate.Bytes.LittleEndian

/-!
# Checksums of container formats

- `Crc32.reflected`: the checksum of gzip members.
- `Crc32.direct`: the checksum of bzip2 blocks.
- `Adler32.checksum`: the checksum of zlib members.
- `XxHash32.hash`: the checksum of lz4 frames.
-/

namespace BlockUpdate

namespace Crc32

/-- Eight steps of polynomial division with the low bit first. -/
def reflectedStep : Nat → UInt32 → UInt32
  | 0, c => c
  | n + 1, c => reflectedStep n (if c &&& 1 = 1 then (c >>> 1) ^^^ 0xedb88320 else c >>> 1)

/-- Eight steps of polynomial division with the high bit first. -/
def directStep : Nat → UInt32 → UInt32
  | 0, c => c
  | n + 1, c =>
    directStep n (if c &&& 0x80000000 = 0 then c <<< 1 else (c <<< 1) ^^^ 0x04c11db7)

/-- Remainders of single bytes, low bit first. -/
def reflectedTable : Array UInt32 :=
  (Array.range 256).map fun n => reflectedStep 8 (UInt32.ofNat n)

/-- Remainders of single bytes, high bit first. -/
def directTable : Array UInt32 :=
  (Array.range 256).map fun n => directStep 8 (UInt32.ofNat n <<< 24)

/-- Checksum with the low bit of each byte first. -/
def reflected (b : Bytes) : UInt32 :=
  let c := b.foldl
    (fun c byte => reflectedTable[((c ^^^ byte.toUInt32) &&& 0xff).toNat]! ^^^ (c >>> 8))
    0xffffffff
  c ^^^ 0xffffffff

/-- Adds one byte to a running checksum with the high bit first. -/
def directUpdate (c : UInt32) (byte : UInt8) : UInt32 :=
  directTable[((c >>> 24) ^^^ byte.toUInt32).toNat]! ^^^ (c <<< 8)

/-- Checksum with the high bit of each byte first. -/
def direct (b : Bytes) : UInt32 := b.foldl directUpdate 0xffffffff ^^^ 0xffffffff

end Crc32

namespace Adler32

/-- The largest prime below `2 ^ 16`. -/
def modulus : UInt32 := 65521

/-- The two running sums, each below the modulus. -/
def update (sums : UInt32 × UInt32) (byte : UInt8) : UInt32 × UInt32 :=
  let low := (sums.1 + byte.toUInt32) % modulus
  (low, (sums.2 + low) % modulus)

/-- The checksum: the second sum above the first. -/
def checksum (b : Bytes) : UInt32 :=
  let (low, high) := b.foldl update (1, 0)
  (high <<< 16) ||| low

end Adler32

namespace XxHash32

def prime1 : UInt32 := 2654435761
def prime2 : UInt32 := 2246822519
def prime3 : UInt32 := 3266489917
def prime4 : UInt32 := 668265263
def prime5 : UInt32 := 374761393

/-- Rotation to the left; `n` is between 1 and 31. -/
@[inline] def rotl (x n : UInt32) : UInt32 := (x <<< n) ||| (x >>> (32 - n))

/-- The little-endian word at `i`. -/
@[inline] def wordAt (b : Bytes) (i : Nat) : UInt32 :=
  (b.get! i).toUInt32 ||| ((b.get! (i + 1)).toUInt32 <<< 8) |||
    ((b.get! (i + 2)).toUInt32 <<< 16) ||| ((b.get! (i + 3)).toUInt32 <<< 24)

@[inline] def round (acc lane : UInt32) : UInt32 := rotl (acc + lane * prime2) 13 * prime1

/-- Folds `n` stripes of sixteen bytes into the four lanes. -/
def stripes (b : Bytes) : Nat → Nat → (v1 v2 v3 v4 : UInt32) → UInt32
  | 0, _, v1, v2, v3, v4 => rotl v1 1 + rotl v2 7 + rotl v3 12 + rotl v4 18
  | n + 1, i, v1, v2, v3, v4 =>
    stripes b n (i + 16) (round v1 (wordAt b i)) (round v2 (wordAt b (i + 4)))
      (round v3 (wordAt b (i + 8))) (round v4 (wordAt b (i + 12)))

/-- Folds `n` words into the hash. -/
def tailWords (b : Bytes) : Nat → Nat → UInt32 → UInt32
  | 0, _, h => h
  | n + 1, i, h => tailWords b n (i + 4) (rotl (h + wordAt b i * prime3) 17 * prime4)

/-- Folds `n` bytes into the hash. -/
def tailBytes (b : Bytes) : Nat → Nat → UInt32 → UInt32
  | 0, _, h => h
  | n + 1, i, h => tailBytes b n (i + 1) (rotl (h + (b.get! i).toUInt32 * prime5) 11 * prime1)

/-- Mixes the bits of the final hash. -/
def avalanche (h : UInt32) : UInt32 :=
  let h := (h ^^^ (h >>> 15)) * prime2
  let h := (h ^^^ (h >>> 13)) * prime3
  h ^^^ (h >>> 16)

/-- The hash with seed zero. -/
def hash (b : Bytes) : UInt32 :=
  let whole := b.size / 16
  let h :=
    if whole = 0 then prime5
    else stripes b whole 0 (prime1 + prime2) prime2 0 (0 - prime1)
  let h := h + UInt32.ofNat b.size
  let i := 16 * whole
  let words := (b.size - i) / 4
  let h := tailWords b words i h
  let i := i + 4 * words
  avalanche (tailBytes b (b.size - i) i h)

end XxHash32

end BlockUpdate
