import BlockUpdate.Bytes.LittleEndian
import BlockUpdate.Patch.Error

/-!
# Fields of a patch

- `Field.read`: a little-endian number at an offset, or the error that says what is missing.
- `SignMagnitude`: signed numbers of eight bytes, sixty-three bits of magnitude below a sign bit.
- `Cursor`: reading one field after the other; a failed read does not move it.
-/

namespace BlockUpdate

/-! ## Fields at an offset -/

namespace Field

/-- The `count` bytes at `offset`. -/
def window (b : Bytes) (offset count : Nat) : Except PatchError Bytes :=
  match b.slice? offset count with
  | some w => .ok w
  | none => .error (.corruptHeader (.shortField count offset b.size))

/-- The unsigned number of `width` bytes at `offset`. -/
def read (width : Nat) (b : Bytes) (offset : Nat) : Except PatchError Nat :=
  (window b offset width).map LittleEndian.decode

end Field

/-! ## Sign and magnitude -/

namespace SignMagnitude

/-- The weight of the sign bit, which is also one more than the largest magnitude. -/
def signWeight : Nat := 2 ^ 63

/-- The number whose sixty-four bits, sign bit on top, are given. -/
def ofBits (bits : Nat) : Int :=
  if bits < signWeight then (bits : Int) else -((bits - signWeight : Nat) : Int)

/-- The sixty-four bits of a number: its magnitude, with the sign bit set if it is negative. The
magnitude `2 ^ 63` occupies the sign bit itself. -/
def toBits (n : Int) : Nat :=
  if n < 0 ∧ n.natAbs < signWeight then n.natAbs + signWeight else n.natAbs

/-- The signed number at `offset`. -/
def read (b : Bytes) (offset : Nat) : Except PatchError Int :=
  (Field.read 8 b offset).map ofBits

/-- The eight bytes of a number. -/
def encode (n : Int) : Bytes := LittleEndian.encode 8 (toBits n)

theorem ofBits_toBits {n : Int} (h : n.natAbs < signWeight) : ofBits (toBits n) = n := by
  have hweight : signWeight = 2 ^ 63 := rfl
  by_cases hneg : n < 0
  · rw [toBits, if_pos ⟨hneg, h⟩, ofBits, if_neg (by omega)]
    omega
  · rw [toBits, if_neg (by omega), ofBits, if_pos (by omega)]
    omega

end SignMagnitude

/-! ## Signed words -/

namespace Word32

/-- The signed number of thirty-two bits with the given unsigned value. -/
def toSigned (bits : Nat) : Int :=
  if bits < 2 ^ 31 then (bits : Int) else (bits : Int) - 2 ^ 32

/-- The unsigned value of a signed number of thirty-two bits. -/
def ofSigned (n : Int) : Nat := (n % 2 ^ 32).toNat

/-- The four bytes of a signed number. -/
def encode (n : Int) : Bytes := LittleEndian.encode 4 (ofSigned n)

end Word32

/-! ## Reading in order -/

/-- A position in a byte string from which fields are read one after the other. -/
structure Cursor where
  data : Bytes
  position : Nat := 0

namespace Cursor

/-- The next `count` bytes, and the cursor behind them. -/
def bytes (c : Cursor) (count : Nat) : Except PatchError (Bytes × Cursor) := do
  let w ← Field.window c.data c.position count
  return (w, { c with position := c.position + count })

/-- The next unsigned number of `width` bytes. -/
def unsigned (c : Cursor) (width : Nat) : Except PatchError (Nat × Cursor) := do
  let (w, c) ← c.bytes width
  return (LittleEndian.decode w, c)

/-- The next signed number of thirty-two bits. -/
def signed32 (c : Cursor) : Except PatchError (Int × Cursor) := do
  let (n, c) ← c.unsigned 4
  return (Word32.toSigned n, c)

/-- Whether every byte was read. -/
def atEnd (c : Cursor) : Bool := c.data.size ≤ c.position

end Cursor

end BlockUpdate
