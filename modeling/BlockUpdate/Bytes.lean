import BlockUpdate.Instances

/-!
# Byte strings

The data of the library: patches, images, package members.

- `Bytes.slice?`: a window that lies inside the string, or nothing.
- `Bytes.writeAt`: what a positional write leaves in a file: bytes before and after the written
  window keep their value, and a gap past the old end reads as zeros.
- `Bytes.matchLength`: how many leading bytes two suffixes share.

**Main statements**: the sizes of all of these.
-/

namespace BlockUpdate

/-- A string of bytes. -/
abbrev Bytes := ByteArray

namespace Bytes

/-! ## Building -/

/-- The byte `b`, `n` times. -/
def replicate (n : Nat) (b : UInt8) : Bytes := ⟨Array.replicate n b⟩

@[simp] theorem size_replicate (n : Nat) (b : UInt8) : (replicate n b).size = n := by
  simp [replicate, ByteArray.size]

/-- A string of `n` zero bytes. -/
def zeros (n : Nat) : Bytes := replicate n 0

@[simp] theorem size_zeros (n : Nat) : (zeros n).size = n := size_replicate n 0

/-- The pieces one after the other. -/
def join (pieces : List Bytes) : Bytes := pieces.foldl (· ++ ·) ByteArray.empty

/-- The bytes of a list. -/
def ofList (bytes : List UInt8) : Bytes := ⟨bytes.toArray⟩

/-- The bytes of a text in UTF-8. -/
def ofText (text : String) : Bytes := text.toUTF8

/-! ## Windows -/

/-- The `len` bytes from `start` on, if the string holds them all. -/
def slice? (b : Bytes) (start len : Nat) : Option Bytes :=
  if start + len ≤ b.size then some (b.extract start (start + len)) else none

theorem size_of_slice? {b w : Bytes} {start len : Nat} (h : b.slice? start len = some w) :
    w.size = len := by
  unfold slice? at h
  split at h
  · cases h
    simp only [ByteArray.size_extract]
    omega
  · cases h

/-- The bytes from `start` on. -/
def dropFirst (b : Bytes) (start : Nat) : Bytes := b.extract start b.size

@[simp] theorem size_dropFirst (b : Bytes) (start : Nat) :
    (b.dropFirst start).size = b.size - start := by
  simp [dropFirst, ByteArray.size_extract]

/-- The first `len` bytes. -/
def takeFirst (b : Bytes) (len : Nat) : Bytes := b.extract 0 len

@[simp] theorem size_takeFirst (b : Bytes) (len : Nat) :
    (b.takeFirst len).size = min len b.size := by
  simp [takeFirst, ByteArray.size_extract]

/-! ## Overwriting -/

/-- Makes the string at least `len` bytes long by appending zeros. -/
def padTo (b : Bytes) (len : Nat) : Bytes :=
  if b.size < len then b ++ zeros (len - b.size) else b

theorem size_padTo (b : Bytes) (len : Nat) : (b.padTo len).size = max b.size len := by
  unfold padTo
  split
  · rw [ByteArray.size_append, size_zeros]
    omega
  · omega

/-- Replaces the window at `start` by `data`; a gap before it is filled with zeros. -/
def writeAt (b : Bytes) (start : Nat) (data : Bytes) : Bytes :=
  data.copySlice 0 (b.padTo start) start data.size false

theorem size_writeAt (b : Bytes) (start : Nat) (data : Bytes) :
    (b.writeAt start data).size = max b.size (start + data.size) := by
  have hpad := size_padTo b start
  have hpad' : (b.padTo start).data.size = (b.padTo start).size := rfl
  have hdata : data.data.size = data.size := rfl
  simp only [writeAt, ByteArray.copySlice_eq_append, ByteArray.size_append,
    ByteArray.size_extract, hpad', hdata]
  omega

/-! ## Comparing -/

/-- The number of leading bytes that `a` from `i` on and `b` from `j` on have in common. -/
def matchLength (a : Bytes) (i : Nat) (b : Bytes) (j : Nat) : Nat :=
  if i < a.size ∧ j < b.size then
    if a.get! i = b.get! j then matchLength a (i + 1) b (j + 1) + 1 else 0
  else 0
termination_by a.size - i

/-- `matchLength` with an accumulator, which runs in constant space. -/
def matchLengthFrom (a : Bytes) (i : Nat) (b : Bytes) (j : Nat) (acc : Nat) : Nat :=
  if i < a.size ∧ j < b.size then
    if a.get! i = b.get! j then matchLengthFrom a (i + 1) b (j + 1) (acc + 1) else acc
  else acc
termination_by a.size - i

theorem matchLengthFrom_eq (a : Bytes) (i : Nat) (b : Bytes) (j acc : Nat) :
    matchLengthFrom a i b j acc = matchLength a i b j + acc := by
  fun_induction matchLengthFrom a i b j acc with
  | case1 i j acc hin heq ih =>
    rw [ih, matchLength.eq_def a i b j, if_pos hin, if_pos heq]
    omega
  | case2 i j acc hin hne =>
    rw [matchLength.eq_def a i b j, if_pos hin, if_neg hne, Nat.zero_add]
  | case3 i j acc hout =>
    rw [matchLength.eq_def a i b j, if_neg hout, Nat.zero_add]

/-- The byte at a signed position, if there is one. -/
def at? (b : Bytes) (i : Int) : Option UInt8 :=
  if h : 0 ≤ i ∧ i.toNat < b.size then some (b[i.toNat]) else none

end Bytes

end BlockUpdate
