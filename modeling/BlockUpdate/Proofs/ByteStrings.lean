import BlockUpdate.Proofs.Reading

/-!
# Byte strings in parts

- `Bytes.join`: pieces one after the other, by the list of the pieces.
- `Bytes.takeFirst`, `Bytes.dropFirst`: the two parts of a string, and of strings that are appended.
- **`Bytes.writeAt_writeAt`**: two writes where the second goes on behind the first.
-/

namespace BlockUpdate

namespace Bytes

/-! ## Pieces -/

theorem join_eq_append (front : Bytes) (pieces : List Bytes) :
    pieces.foldl (· ++ ·) front = front ++ join pieces := by
  induction pieces generalizing front with
  | nil => exact ByteArray.append_empty.symm
  | cons piece rest ih =>
    rw [join, List.foldl_cons, List.foldl_cons, ih, ih, ByteArray.empty_append,
      ByteArray.append_assoc]

@[simp] theorem join_nil : join [] = ByteArray.empty := rfl

@[simp] theorem join_cons (piece : Bytes) (rest : List Bytes) :
    join (piece :: rest) = piece ++ join rest := by
  rw [join, List.foldl_cons, join_eq_append, ByteArray.empty_append]

@[simp] theorem join_append (pieces more : List Bytes) :
    join (pieces ++ more) = join pieces ++ join more := by
  induction pieces with
  | nil => exact ByteArray.empty_append.symm
  | cons piece rest ih => rw [List.cons_append, join_cons, join_cons, ih, ByteArray.append_assoc]

/-! ## Parts -/

variable {a b : Bytes} {n : Nat}

@[simp] theorem takeFirst_zero (b : Bytes) : b.takeFirst 0 = ByteArray.empty :=
  ByteArray.size_eq_zero_iff.mp (by simp)

@[simp] theorem dropFirst_zero (b : Bytes) : b.dropFirst 0 = b := ByteArray.extract_zero_size

theorem dropFirst_of_size_le (h : b.size ≤ n) : b.dropFirst n = ByteArray.empty :=
  ByteArray.size_eq_zero_iff.mp (by rw [size_dropFirst]; omega)

theorem byte_takeFirst (b : Bytes) (n i : Nat) :
    (b.takeFirst n).byte i = if i < n then b.byte i else 0 := by
  rw [takeFirst, byte_extract, Nat.zero_add]
  split_ifs with h h' <;> first | rfl | omega | exact (byte_of_le (by omega)).symm

theorem byte_dropFirst (b : Bytes) (n i : Nat) : (b.dropFirst n).byte i = b.byte (n + i) := by
  rw [dropFirst, byte_extract]
  split_ifs with h
  · rfl
  · exact (byte_of_le (by omega)).symm

theorem takeFirst_append_dropFirst (b : Bytes) (n : Nat) : b.takeFirst n ++ b.dropFirst n = b := by
  refine ext_byte ?_ fun i => ?_
  · rw [ByteArray.size_append, size_takeFirst, size_dropFirst]
    omega
  · rw [byte_append, size_takeFirst, byte_takeFirst, byte_dropFirst]
    by_cases hi : i < min n b.size
    · rw [if_pos hi, if_pos (by omega)]
    · rw [if_neg hi]
      by_cases hn : n ≤ b.size
      · congr 1
        omega
      · rw [byte_of_le (by omega), byte_of_le (by omega)]

theorem takeFirst_append_of_le (h : a.size ≤ n) :
    (a ++ b).takeFirst n = a ++ b.takeFirst (n - a.size) := by
  refine ext_byte ?_ fun i => ?_
  · simp only [size_takeFirst, ByteArray.size_append]
    omega
  · simp only [byte_takeFirst, byte_append]
    split_ifs <;> first | rfl | omega

theorem dropFirst_append_of_le (h : a.size ≤ n) :
    (a ++ b).dropFirst n = b.dropFirst (n - a.size) := by
  refine ext_byte ?_ fun i => ?_
  · simp only [size_dropFirst, ByteArray.size_append]
    omega
  · rw [byte_dropFirst, byte_append, byte_dropFirst, if_neg (by omega)]
    congr 1
    omega

/-- There is no more to take than all. -/
theorem takeFirst_min (b : Bytes) (n : Nat) : b.takeFirst (min b.size n) = b.takeFirst n := by
  rcases Nat.le_total b.size n with h | h
  · rw [Nat.min_eq_left h, takeFirst_of_size_le (Nat.le_refl _), takeFirst_of_size_le h]
  · rw [Nat.min_eq_right h]

theorem takeFirst_add (b : Bytes) (m n : Nat) :
    b.takeFirst (m + n) = b.takeFirst m ++ (b.dropFirst m).takeFirst n := by
  by_cases hle : m ≤ b.size
  · have hfront : (b.takeFirst m).size = m := by
      rw [size_takeFirst]
      omega
    have hwhole := takeFirst_append_of_le (b := b.dropFirst m)
      (by omega : (b.takeFirst m).size ≤ m + n)
    rwa [takeFirst_append_dropFirst, hfront, Nat.add_sub_cancel_left] at hwhole
  · rw [takeFirst_of_size_le (by omega), takeFirst_of_size_le (by omega),
      dropFirst_of_size_le (by omega), takeFirst_of_size_le (Nat.zero_le _),
      ByteArray.append_empty]

theorem takeFirst_takeFirst_add (b : Bytes) (m n : Nat) :
    (b.takeFirst (m + n)).takeFirst m = b.takeFirst m := by
  refine ext_byte ?_ fun i => ?_
  · simp only [size_takeFirst]
    omega
  · simp only [byte_takeFirst]
    split_ifs <;> first | rfl | omega

theorem dropFirst_takeFirst_add (b : Bytes) (m n : Nat) :
    (b.takeFirst (m + n)).dropFirst m = (b.dropFirst m).takeFirst n := by
  refine ext_byte ?_ fun i => ?_
  · simp only [size_takeFirst, size_dropFirst]
    omega
  · simp only [byte_takeFirst, byte_dropFirst]
    split_ifs <;> first | rfl | omega

theorem takeFirst_append_of_ge (h : n ≤ a.size) : (a ++ b).takeFirst n = a.takeFirst n := by
  refine ext_byte ?_ fun i => ?_
  · simp only [size_takeFirst, ByteArray.size_append]
    omega
  · simp only [byte_takeFirst, byte_append]
    split_ifs <;> first | rfl | omega

theorem dropFirst_append_of_ge (h : n ≤ a.size) : (a ++ b).dropFirst n = a.dropFirst n ++ b := by
  refine ext_byte ?_ fun i => ?_
  · simp only [size_dropFirst, ByteArray.size_append]
    omega
  · simp only [byte_dropFirst, byte_append, size_dropFirst]
    split_ifs <;> first | omega | rfl | (congr 1; omega)

theorem takeFirst_append (a b : Bytes) : (a ++ b).takeFirst a.size = a := by
  rw [takeFirst_append_of_le (Nat.le_refl _), Nat.sub_self, takeFirst_zero, ByteArray.append_empty]

theorem dropFirst_append (a b : Bytes) : (a ++ b).dropFirst a.size = b := by
  rw [dropFirst_append_of_le (Nat.le_refl _), Nat.sub_self, dropFirst_zero]

theorem dropFirst_dropFirst (b : Bytes) (m n : Nat) :
    (b.dropFirst m).dropFirst n = b.dropFirst (m + n) := by
  refine ext_byte ?_ fun i => ?_
  · simp only [size_dropFirst]
    omega
  · rw [byte_dropFirst, byte_dropFirst, byte_dropFirst, Nat.add_assoc]

theorem takeFirst_dropFirst (b : Bytes) (m n : Nat) :
    (b.dropFirst m).takeFirst n = b.extract m (m + n) := by
  refine ext_byte ?_ fun i => ?_
  · rw [size_takeFirst, size_dropFirst, ByteArray.size_extract]
    omega
  · rw [byte_takeFirst, byte_dropFirst, byte_extract]
    split_ifs <;> first | rfl | omega | exact byte_of_le (by omega)

theorem extract_append_dropFirst (b : Bytes) {start stop : Nat} (h : start ≤ stop)
    (hstop : stop ≤ b.size) : b.extract start stop ++ b.dropFirst stop = b.dropFirst start := by
  refine ext_byte ?_ fun i => ?_
  · rw [ByteArray.size_append, ByteArray.size_extract, size_dropFirst, size_dropFirst]
    omega
  · rw [byte_append, ByteArray.size_extract, byte_extract, byte_dropFirst, byte_dropFirst]
    split_ifs <;> first | omega | rfl | (congr 1; omega)

/-! ## Writes one behind the other -/

/-- **A write that goes on behind another** is one write of both. -/
theorem writeAt_writeAt (image : Bytes) (start : Nat) (a b : Bytes) :
    (image.writeAt start a).writeAt (start + a.size) b = image.writeAt start (a ++ b) := by
  refine ext_byte ?_ fun i => ?_
  · simp only [size_writeAt, ByteArray.size_append]
    omega
  · simp only [byte_writeAt, byte_append, ByteArray.size_append]
    split_ifs <;> first | omega | rfl | (congr 1; omega)

/-- A write from the front on replaces what is no longer. -/
theorem writeAt_zero {image data : Bytes} (h : image.size ≤ data.size) :
    image.writeAt 0 data = data := by
  refine ext_byte ?_ fun i => ?_
  · rw [size_writeAt]
    omega
  · rw [byte_writeAt]
    split_ifs
    · rfl
    · rw [byte_of_le (by omega), byte_of_le (by omega)]

/-- A write of nothing within a string changes nothing. -/
theorem writeAt_empty {image : Bytes} {start : Nat} (h : start ≤ image.size) :
    image.writeAt start ByteArray.empty = image := by
  refine ext_byte ?_ fun i => ?_
  · rw [size_writeAt, ByteArray.size_empty]
    omega
  · rw [byte_writeAt, ByteArray.size_empty, if_neg (by omega)]

end Bytes

end BlockUpdate
