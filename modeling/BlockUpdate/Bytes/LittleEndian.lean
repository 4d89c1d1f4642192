import BlockUpdate.Bytes

/-!
# Little-endian fields

Unsigned numbers as bytes, least significant byte first.

- `LittleEndian.digits width n`: the `width` bytes of `n`.
- `LittleEndian.value bytes`: the number that the bytes denote.

**Main statements**: `value_digits` (reading back what was written gives the number modulo
`256 ^ width`) and `digits_value` (writing what was read gives the bytes).
-/

namespace BlockUpdate.LittleEndian

/-- The `width` low bytes of `n`, least significant first. -/
def digits : Nat → Nat → List UInt8
  | 0, _ => []
  | width + 1, n => UInt8.ofNat (n % 256) :: digits width (n / 256)

/-- The number whose bytes, least significant first, are given. -/
def value : List UInt8 → Nat
  | [] => 0
  | b :: rest => b.toNat + 256 * value rest

@[simp] theorem length_digits (width n : Nat) : (digits width n).length = width := by
  induction width generalizing n with
  | zero => rfl
  | succ width ih => simp [digits, ih]

theorem value_lt (bytes : List UInt8) : value bytes < 256 ^ bytes.length := by
  induction bytes with
  | nil => simp [value]
  | cons b rest ih =>
    have := b.toNat_lt
    rw [value, List.length_cons, Nat.pow_succ]
    omega

theorem value_digits (width n : Nat) : value (digits width n) = n % 256 ^ width := by
  induction width generalizing n with
  | zero => simp [digits, value, Nat.mod_one]
  | succ width ih =>
    have hbyte : (UInt8.ofNat (n % 256)).toNat = n % 256 := by
      simp [UInt8.toNat_ofNat']
    rw [digits, value, ih, hbyte, Nat.pow_succ, Nat.mul_comm (256 ^ width) 256,
      Nat.mod_mul]

theorem digits_value (bytes : List UInt8) : digits bytes.length (value bytes) = bytes := by
  induction bytes with
  | nil => rfl
  | cons b rest ih =>
    have hlt : b.toNat < 256 := b.toNat_lt
    have hlow : (b.toNat + 256 * value rest) % 256 = b.toNat := by omega
    have hhigh : (b.toNat + 256 * value rest) / 256 = value rest := by omega
    rw [List.length_cons, value, digits, hlow, hhigh, ih]
    simp

/-- The `width` bytes of `n` as a byte string. -/
def encode (width n : Nat) : Bytes := Bytes.ofList (digits width n)

@[simp] theorem size_encode (width n : Nat) : (encode width n).size = width := by
  simp [encode, Bytes.ofList, ByteArray.size]

/-- The number held by all bytes of a string. -/
def decode (b : Bytes) : Nat := value b.data.toList

/-- The number held by the `width` bytes at `start`, if they are there. -/
def read? (b : Bytes) (start width : Nat) : Option Nat :=
  (b.slice? start width).map decode

end BlockUpdate.LittleEndian
