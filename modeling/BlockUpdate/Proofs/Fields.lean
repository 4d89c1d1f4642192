import BlockUpdate.Patch.Field
import BlockUpdate.Proofs.ByteStrings
import BlockUpdate.Proofs.Outcome

/-!
# Reading fields back

Patches are written front to back and read at offsets and through cursors. A field that was written
between two parts of a patch is found by the size of the part before it.

- `Bytes.slice?_append`, `Bytes.extract_append`: the middle of three parts.
- `LittleEndian.decode_push`, `LittleEndian.encode_decode`: the last byte of a field by itself, and
  a field from its number.
- `LittleEndian.read?_append`, **`SignMagnitude.read_encode`**: a field reads back at its offset.
- `Cursor.Reads`: a value reads back from its encoding wherever a cursor meets it. Values that are
  read in order are encoded one behind the other (`Reads.bind`).
- **`Cursor.reads_unsigned`**, **`Cursor.reads_signed32`**: fields read back.
-/

namespace BlockUpdate

/-! ## The middle of three parts -/

namespace Bytes

variable {b x w y : Bytes} {start : Nat}

theorem extract_append (hb : b = x ++ (w ++ y)) (hstart : x.size = start) :
    b.extract start (start + w.size) = w := by
  subst hb hstart
  refine ext_byte ?_ fun i => ?_
  · simp only [ByteArray.size_extract, ByteArray.size_append]
    omega
  · simp only [byte_extract, byte_append, ByteArray.size_append]
    split_ifs <;>
      first
        | omega
        | (congr 1; omega)
        | exact (byte_of_le (by omega)).symm

theorem slice?_append (hb : b = x ++ (w ++ y)) (hstart : x.size = start) :
    b.slice? start w.size = some w := by
  have hle : start + w.size ≤ b.size := by
    subst hb hstart
    simp only [ByteArray.size_append]
    omega
  rw [slice?, if_pos hle, extract_append hb hstart]

theorem dropFirst_of_append (hb : b = x ++ y) (hstart : x.size = start) :
    b.dropFirst start = y := by
  subst hb hstart
  exact dropFirst_append x y

end Bytes

/-! ## The last byte -/

namespace Bytes

theorem exists_push {b : Bytes} {n : Nat} (h : b.size = n + 1) :
    ∃ (front : Bytes) (x : UInt8), b = front.push x ∧ front.size = n := by
  have hsize : b.data.size = n + 1 := h
  obtain ⟨data, x, hdata⟩ := Array.exists_push_of_size_eq_add_one hsize
  have hb : b = ByteArray.push ⟨data⟩ x := ByteArray.ext hdata
  refine ⟨⟨data⟩, x, hb, ?_⟩
  rw [hb, ByteArray.size_push] at h
  exact Nat.succ.inj h

theorem get!_push (b : Bytes) (x : UInt8) : (b.push x).get! b.size = x := by
  have hget : (b.push x).get! b.size = (b.data.push x)[b.data.size]! := rfl
  rw [hget, getElem!_pos _ _ (by rw [Array.size_push]; exact Nat.lt_succ_self _),
    Array.getElem_push_eq]

theorem set!_push (b : Bytes) (x y : UInt8) : (b.push x).set! b.size y = b.push y := by
  have hset : (b.push x).set! b.size y = ⟨(b.data.push x).setIfInBounds b.data.size y⟩ := rfl
  have hsize : b.data.size < (b.data.push x).size := by
    rw [Array.size_push]
    exact Nat.lt_succ_self _
  rw [hset, Array.setIfInBounds_def, dif_pos hsize, Array.set_push, dif_neg (Nat.lt_irrefl _)]
  rfl

end Bytes

/-! ## Numbers -/

namespace LittleEndian

theorem value_append (s t : List UInt8) :
    value (s ++ t) = value s + 256 ^ s.length * value t := by
  induction s with
  | nil => simp [value]
  | cons x s ih =>
    rw [List.cons_append, value, value, ih, List.length_cons, Nat.pow_succ, Nat.mul_add,
      ← Nat.mul_assoc, Nat.mul_comm 256 (256 ^ s.length), Nat.add_assoc]

theorem decode_lt (b : Bytes) : decode b < 256 ^ b.size := value_lt b.data.toList

/-- The last byte weighs most. -/
theorem decode_push (b : Bytes) (x : UInt8) :
    decode (b.push x) = decode b + 256 ^ b.size * x.toNat := by
  have hlength : b.data.toList.length = b.size := rfl
  rw [decode, ByteArray.data_push, Array.toList_push, value_append, hlength]
  rfl

/-- The bytes of a number that was read. -/
theorem encode_decode {b : Bytes} {width : Nat} (h : b.size = width) :
    encode width (decode b) = b := by
  subst h
  exact ByteArray.ext (Array.ext' (digits_value b.data.toList))

theorem decode_encode {width n : Nat} (h : n < 256 ^ width) : decode (encode width n) = n := by
  rw [decode, encode, Bytes.ofList, value_digits, Nat.mod_eq_of_lt h]

/-- A field is found behind the bytes before it. -/
theorem read?_append {width n start : Nat} {b x y : Bytes}
    (hb : b = x ++ (encode width n ++ y)) (hstart : x.size = start) (hn : n < 256 ^ width) :
    read? b start width = some n := by
  have hslice := Bytes.slice?_append hb hstart
  rw [size_encode] at hslice
  rw [read?, hslice, Option.map_some, decode_encode hn]

end LittleEndian

/-- **An unsigned field reads back at its offset.** -/
theorem Field.read_encode {width n : Nat} {b x y : Bytes} {offset : Nat}
    (hb : b = x ++ (LittleEndian.encode width n ++ y)) (hoffset : x.size = offset)
    (hn : n < 256 ^ width) : read width b offset = .ok n := by
  have hslice := Bytes.slice?_append hb hoffset
  rw [LittleEndian.size_encode] at hslice
  rw [read, window, hslice]
  simp only [Except.map, LittleEndian.decode_encode hn]

theorem Word32.toSigned_ofSigned {n : Int} (hlow : -2 ^ 31 ≤ n) (hhigh : n < 2 ^ 31) :
    toSigned (ofSigned n) = n := by
  have hbits : (ofSigned n : Int) = n % 2 ^ 32 := Int.toNat_of_nonneg (by omega)
  by_cases h : ofSigned n < 2 ^ 31
  · rw [toSigned, if_pos h]
    omega
  · rw [toSigned, if_neg h]
    omega

theorem Word32.ofSigned_lt (n : Int) : ofSigned n < 256 ^ 4 := by
  simp only [ofSigned]
  omega

namespace SignMagnitude

theorem toBits_lt {n : Int} (h : n.natAbs < signWeight) : toBits n < 256 ^ 8 := by
  have hweight : signWeight = 2 ^ 63 := rfl
  rw [toBits]
  split <;> omega

@[simp] theorem size_encode (n : Int) : (encode n).size = 8 := LittleEndian.size_encode ..

variable {b x y : Bytes} {n : Int} {offset : Nat}

/-- **A signed field reads back at its offset.** -/
theorem read_encode (hb : b = x ++ (encode n ++ y)) (hoffset : x.size = offset)
    (hn : n.natAbs < signWeight) : read b offset = .ok n := by
  rw [read, Field.read_encode hb hoffset (toBits_lt hn)]
  simp only [Except.map, ofBits_toBits hn]

end SignMagnitude

/-! ## Cursors -/

namespace Cursor

variable {α β : Type}

/-- What a cursor still has to read. -/
def Ahead (c : Cursor) (rest : Bytes) : Prop :=
  ∃ front : Bytes, c.data = front ++ rest ∧ front.size = c.position

theorem ahead_start (b : Bytes) : Ahead { data := b } b :=
  ⟨ByteArray.empty, ByteArray.empty_append.symm, rfl⟩

/-- From a cursor with an encoded value ahead, the value is read, and the cursor then stands behind
it, whatever follows. -/
def Reads (read : Cursor → Except PatchError (α × Cursor)) (value : α) (encoded : Bytes) : Prop :=
  ∀ c rest, Ahead c (encoded ++ rest) → ∃ c', read c = .ok (value, c') ∧ c'.Ahead rest

namespace Reads

theorem pure (value : α) : Reads (fun c => .ok (value, c)) value ByteArray.empty := by
  intro c rest h
  rw [ByteArray.empty_append] at h
  exact ⟨c, rfl, h⟩

/-- Two values that are encoded one behind the other. -/
theorem bind {read : Cursor → Except PatchError (α × Cursor)}
    {next : α → Cursor → Except PatchError (β × Cursor)} {a : α} {b : β} {x y : Bytes}
    (hread : Reads read a x) (hnext : Reads (next a) b y) :
    Reads (fun c => read c >>= fun r => next r.1 r.2) b (x ++ y) := by
  intro c rest h
  rw [ByteArray.append_assoc] at h
  obtain ⟨c₁, hread, h₁⟩ := hread c _ h
  obtain ⟨c₂, hnext, h₂⟩ := hnext c₁ _ h₁
  exact ⟨c₂, except_bind_eq_ok.mpr ⟨_, hread, hnext⟩, h₂⟩

/-- A last value that is made from what was read. -/
theorem map {read : Cursor → Except PatchError (α × Cursor)} {a : α} {x : Bytes}
    (hread : Reads read a x) (f : α → β) :
    Reads (fun c => read c >>= fun r => .ok (f r.1, r.2)) (f a) x := by
  have h : Reads (fun c => read c >>= fun r => .ok (f r.1, r.2)) (f a) (x ++ ByteArray.empty) :=
    @bind _ _ read (fun a c => .ok (f a, c)) a (f a) x _ hread (pure (f a))
  rwa [ByteArray.append_empty] at h

end Reads

theorem reads_bytes (w : Bytes) : Reads (fun c => c.bytes w.size) w w := by
  rintro c rest ⟨front, hdata, hsize⟩
  refine ⟨{ c with position := c.position + w.size }, ?_, front ++ w, ?_, ?_⟩
  · show c.bytes w.size = _
    rw [Cursor.bytes, Field.window, Bytes.slice?_append hdata hsize]
    rfl
  · rw [hdata, ByteArray.append_assoc]
  · rw [ByteArray.size_append, hsize]

/-- **An unsigned field reads back.** -/
theorem reads_unsigned {width n : Nat} (hn : n < 256 ^ width) :
    Reads (fun c => c.unsigned width) n (LittleEndian.encode width n) := by
  have h := (reads_bytes (LittleEndian.encode width n)).map LittleEndian.decode
  rwa [LittleEndian.size_encode, LittleEndian.decode_encode hn] at h

/-- **A signed field reads back.** -/
theorem reads_signed32 {n : Int} (hlow : -2 ^ 31 ≤ n) (hhigh : n < 2 ^ 31) :
    Reads signed32 n (Word32.encode n) := by
  have h := (reads_unsigned (Word32.ofSigned_lt n)).map Word32.toSigned
  rwa [Word32.toSigned_ofSigned hlow hhigh] at h

end Cursor

end BlockUpdate
