import BlockUpdate.Bytes
import Mathlib.Tactic.SplitIfs

/-!
# Overwriting byte strings

What a list of positional writes leaves in a byte string, position by position. Bytes behind the
end read as zero here, so that two strings are equal when they have one size and the same bytes.

- `Bytes.byte`: the byte at a position.
- `Write`, `Bytes.overwrite`: positional writes, and a string after some of them.
- `Write.Covered`: the positions that some write of a list sets.
- **`byte_overwrite_of_covered`**, **`byte_overwrite_of_not_covered`**: what was written does not
  depend on what was there, and the rest stays.
- **`overwrite_overwrite`**: to repeat the same writes changes nothing.
-/

namespace BlockUpdate

namespace Bytes

/-- The byte at a position, zero behind the end. -/
def byte (b : Bytes) (i : Nat) : UInt8 := (b.data[i]?).getD 0

theorem byte_of_lt {b : Bytes} {i : Nat} (h : i < b.size) : b.byte i = b[i] := by
  have h' : i < b.data.size := h
  simp only [byte, Array.getElem?_eq_getElem h', Option.getD_some]
  rfl

theorem byte_of_le {b : Bytes} {i : Nat} (h : b.size ≤ i) : b.byte i = 0 := by
  have h' : b.data.size ≤ i := h
  simp [byte, Array.getElem?_eq_none h']

/-- **Strings of one size with the same bytes are equal.** -/
theorem ext_byte {a b : Bytes} (hsize : a.size = b.size) (h : ∀ i, a.byte i = b.byte i) :
    a = b := by
  refine ByteArray.ext_getElem hsize fun i ha hb => ?_
  rw [← byte_of_lt ha, ← byte_of_lt hb]
  exact h i

/-! ## The bytes of compound strings -/

theorem byte_append (a b : Bytes) (i : Nat) :
    (a ++ b).byte i = if i < a.size then a.byte i else b.byte (i - a.size) := by
  have hdata : (a ++ b).data = a.data ++ b.data := ByteArray.data_append
  have hsize : a.data.size = a.size := rfl
  simp only [byte, hdata, Array.getElem?_append, hsize]
  split <;> rfl

theorem byte_extract (b : Bytes) (i j k : Nat) :
    byte (b.extract i j) k = if k < min j b.size - i then b.byte (i + k) else 0 := by
  have hdata : (b.extract i j).data = b.data.extract i j := ByteArray.data_extract
  have hsize : b.data.size = b.size := rfl
  simp only [byte, hdata, Array.getElem?_extract, hsize]
  split <;> rfl

@[simp] theorem byte_zeros (n i : Nat) : (zeros n).byte i = 0 := by
  simp only [byte, zeros, replicate, Array.getElem?_replicate]
  split <;> rfl

theorem byte_padTo (b : Bytes) (n i : Nat) : (b.padTo n).byte i = b.byte i := by
  rw [padTo]
  split
  · rw [byte_append, byte_zeros]
    split
    · rfl
    · rw [byte_of_le (by omega)]
  · rfl

theorem byte_writeAt (b : Bytes) (start : Nat) (data : Bytes) (i : Nat) :
    (b.writeAt start data).byte i =
      if start ≤ i ∧ i < start + data.size then data.byte (i - start) else b.byte i := by
  have hpad := size_padTo b start
  have hdata : data.data.size = data.size := rfl
  have hpad' : (b.padTo start).data.size = (b.padTo start).size := rfl
  simp only [writeAt, ByteArray.copySlice_eq_append, byte_append, byte_extract, byte_padTo,
    ByteArray.size_append, ByteArray.size_extract, hdata, hpad']
  split_ifs <;> first | omega | (congr 1; omega) | (rw [byte_of_le (by omega)])

end Bytes

/-! ## Lists of writes -/

/-- A positional write. -/
structure Write where
  offset : Nat
  data : Bytes

namespace Write

/-- Whether a write sets a position. -/
def Covers (w : Write) (i : Nat) : Prop := w.offset ≤ i ∧ i < w.offset + w.data.size

/-- Whether some write of a list sets a position. -/
def Covered (ws : List Write) (i : Nat) : Prop := ∃ w ∈ ws, w.Covers i

@[simp] theorem not_covered_nil (i : Nat) : ¬ Covered [] i := by simp [Covered]

@[simp] theorem covered_cons (w : Write) (ws : List Write) (i : Nat) :
    Covered (w :: ws) i ↔ w.Covers i ∨ Covered ws i := by simp [Covered]

@[simp] theorem covered_append (ws ws' : List Write) (i : Nat) :
    Covered (ws ++ ws') i ↔ Covered ws i ∨ Covered ws' i := by
  simp only [Covered, List.mem_append, or_and_right, exists_or]

/-- The smallest size of a string that took all writes of a list. A write without data sets
nothing, wherever it is. -/
def reach : List Write → Nat
  | [] => 0
  | w :: ws => if w.data.size = 0 then reach ws else max (w.offset + w.data.size) (reach ws)

/-- What is covered lies within reach. -/
theorem lt_reach {ws : List Write} {i : Nat} (h : Covered ws i) : i < reach ws := by
  induction ws with
  | nil => exact absurd h (not_covered_nil i)
  | cons w ws ih =>
    rw [reach]
    rcases (covered_cons w ws i).mp h with ⟨hstart, hstop⟩ | hws
    · split_ifs <;> omega
    · have := ih hws
      split_ifs <;> omega

/-- Writes reach no further than what they cover. -/
theorem reach_le {ws : List Write} {n : Nat} (h : ∀ i, Covered ws i → i < n) : reach ws ≤ n := by
  induction ws with
  | nil => exact Nat.zero_le n
  | cons w ws ih =>
    have hrest := ih fun i hi => h i ((covered_cons w ws i).mpr (.inr hi))
    rw [reach]
    split_ifs with hempty
    · exact hrest
    · have hlast := h (w.offset + w.data.size - 1) <|
        (covered_cons w ws _).mpr (.inl ⟨by omega, by omega⟩)
      omega

end Write

namespace Bytes

/-- The string after one write. -/
def after (b : Bytes) (w : Write) : Bytes :=
  if w.data.size = 0 then b else b.writeAt w.offset w.data

theorem byte_after_of_covers (b : Bytes) {w : Write} {i : Nat} (h : w.Covers i) :
    (b.after w).byte i = w.data.byte (i - w.offset) := by
  obtain ⟨hstart, hstop⟩ := h
  rw [after, if_neg (by omega), byte_writeAt, if_pos ⟨hstart, hstop⟩]

theorem byte_after_of_not_covers (b : Bytes) {w : Write} {i : Nat} (h : ¬ w.Covers i) :
    (b.after w).byte i = b.byte i := by
  rw [after]
  split_ifs
  · rfl
  · rw [byte_writeAt]
    exact if_neg h

/-- The string after some writes. -/
def overwrite (b : Bytes) : List Write → Bytes
  | [] => b
  | w :: ws => overwrite (b.after w) ws

theorem overwrite_append (b : Bytes) (ws ws' : List Write) :
    b.overwrite (ws ++ ws') = (b.overwrite ws).overwrite ws' := by
  induction ws generalizing b with
  | nil => rfl
  | cons w ws ih => exact ih _

theorem size_overwrite (b : Bytes) (ws : List Write) :
    (b.overwrite ws).size = max b.size (Write.reach ws) := by
  induction ws generalizing b with
  | nil => simp [overwrite, Write.reach]
  | cons w ws ih =>
    rw [overwrite, ih, after, Write.reach]
    split_ifs
    · rfl
    · rw [size_writeAt]
      omega

/-- **What no write sets stays.** -/
theorem byte_overwrite_of_not_covered (b : Bytes) {ws : List Write} {i : Nat}
    (h : ¬ Write.Covered ws i) : (b.overwrite ws).byte i = b.byte i := by
  induction ws generalizing b with
  | nil => rfl
  | cons w ws ih =>
    rw [Write.covered_cons, not_or] at h
    rw [overwrite, ih _ h.2, byte_after_of_not_covers b h.1]

/-- Strings that agree on a byte agree on it after the same writes. -/
theorem byte_overwrite_congr {a b : Bytes} (ws : List Write) {i : Nat}
    (h : Write.Covered ws i ∨ a.byte i = b.byte i) :
    (a.overwrite ws).byte i = (b.overwrite ws).byte i := by
  induction ws generalizing a b with
  | nil => exact h.resolve_left (Write.not_covered_nil i)
  | cons w ws ih =>
    refine ih ?_
    by_cases hw : w.Covers i
    · exact .inr (by rw [byte_after_of_covers a hw, byte_after_of_covers b hw])
    · rw [byte_after_of_not_covers a hw, byte_after_of_not_covers b hw]
      exact h.imp_left fun hc => ((Write.covered_cons w ws i).mp hc).resolve_left hw

/-- **What was written does not depend on what was there.** -/
theorem byte_overwrite_of_covered (a b : Bytes) {ws : List Write} {i : Nat}
    (h : Write.Covered ws i) : (a.overwrite ws).byte i = (b.overwrite ws).byte i :=
  byte_overwrite_congr ws (.inl h)

/-- **To repeat the same writes changes nothing.** -/
theorem overwrite_overwrite (b : Bytes) (ws : List Write) :
    (b.overwrite ws).overwrite ws = b.overwrite ws := by
  refine ext_byte ?_ fun i => ?_
  · simp only [size_overwrite]
    omega
  · by_cases h : Write.Covered ws i
    · exact byte_overwrite_of_covered _ _ h
    · exact byte_overwrite_of_not_covered _ h

end Bytes

end BlockUpdate
