import BlockUpdate.Proofs.Emitted
import BlockUpdate.Proofs.Fields
import BlockUpdate.Patch.Block
import Mathlib.Tactic.SplitIfs

/-!
# The runs of a block patch

A run is read and handed over in pieces, each of which is checked on its own. Together they make
the run, if its stream covers it and positions stay valid; otherwise the run fails, and no more is
handed over than it has bytes.

- `Bytes.pushAll`: bytes that are added to a string one by one.
- `sums`, `addOld_eq_sums`: diff bytes with the old bytes added to them.
- **`diffRun_emits_sums`**, **`diffRun_fails`**: a diff run.
- **`extraRun_emits_extract`**, **`extraRun_fails`**: an extra run.
-/

namespace BlockUpdate

namespace Bytes

theorem byte_push (b : Bytes) (x : UInt8) (i : Nat) :
    byte (b.push x) i = if i = b.size then x else b.byte i := by
  have hsize : b.data.size = b.size := rfl
  have hdata : (b.push x).data = b.data.push x := rfl
  rw [byte, hdata, Array.getElem?_push, hsize]
  split <;> rfl

theorem get!_eq_byte (b : Bytes) (i : Nat) : b.get! i = b.byte i := by
  have hget : b.get! i = b.data[i]! := rfl
  rw [hget, byte, getElem!_def]
  cases b.data[i]? <;> rfl

/-- Behind the end of a string there is nothing to add or to subtract. -/
theorem getD_at? (b : Bytes) (i : Nat) : (b.at? i).getD 0 = b.byte i := by
  by_cases h : i < b.size
  · have hin : 0 ≤ (i : Int) ∧ (i : Int).toNat < b.size := ⟨Int.natCast_nonneg i, h⟩
    rw [at?, dif_pos hin, byte_of_lt h]
    rfl
  · have hout : ¬ (0 ≤ (i : Int) ∧ (i : Int).toNat < b.size) := fun hin => h hin.2
    rw [at?, dif_neg hout, byte_of_le (Nat.le_of_not_lt h)]
    rfl

/-- The bytes `f i`, `f (i + 1)` and so on, `n` of them, behind a string. -/
def pushAll (f : Nat → UInt8) : Nat → Nat → Bytes → Bytes
  | 0, _, out => out
  | n + 1, i, out => pushAll f n (i + 1) (out.push (f i))

variable (f : Nat → UInt8) (n i : Nat) (out : Bytes)

@[simp] theorem size_pushAll : (pushAll f n i out).size = out.size + n := by
  induction n generalizing i out with
  | zero => rfl
  | succ n ih =>
    rw [pushAll, ih, ByteArray.size_push]
    omega

theorem byte_pushAll (j : Nat) :
    (pushAll f n i out).byte j =
      if j < out.size then out.byte j
      else if j < out.size + n then f (i + (j - out.size)) else 0 := by
  induction n generalizing i out with
  | zero =>
    rw [pushAll]
    split_ifs with hout
    · rfl
    · omega
    · exact byte_of_le (by omega)
  | succ n ih =>
    rw [pushAll, ih, ByteArray.size_push, byte_push]
    split_ifs <;> first | omega | rfl | (congr 1; omega)

theorem pushAll_eq_append : pushAll f n i out = out ++ pushAll f n i ByteArray.empty := by
  refine ext_byte ?_ fun j => ?_
  · rw [size_pushAll, ByteArray.size_append, size_pushAll, ByteArray.size_empty]
    omega
  · rw [byte_pushAll, byte_append, byte_pushAll, ByteArray.size_empty]
    split_ifs <;> first | omega | rfl

end Bytes

namespace BlockPatch

variable {s : Streams} {old : Bytes}

/-! ## Sums -/

/-- The sums of diff bytes and the old bytes from a position on; outside the old data there is
nothing to add. -/
def sums (old : Bytes) (position : Int) (diff : Bytes) : Bytes :=
  Bytes.pushAll (fun j => diff.byte j + (old.at? (position + j)).getD 0) diff.size 0
    ByteArray.empty

@[simp] theorem size_sums (position : Int) (diff : Bytes) :
    (sums old position diff).size = diff.size := by
  rw [sums, Bytes.size_pushAll, ByteArray.size_empty, Nat.zero_add]

theorem byte_sums (position : Int) (diff : Bytes) (j : Nat) :
    (sums old position diff).byte j =
      if j < diff.size then diff.byte j + (old.at? (position + j)).getD 0 else 0 := by
  rw [sums, Bytes.byte_pushAll, ByteArray.size_empty, if_neg (Nat.not_lt_zero j)]
  simp only [Nat.zero_add, Nat.sub_zero]

theorem sums_append (position : Int) (a b : Bytes) :
    sums old position (a ++ b) = sums old position a ++ sums old (position + a.size) b := by
  refine Bytes.ext_byte ?_ fun j => ?_
  · simp only [size_sums, ByteArray.size_append]
  · rw [Bytes.byte_append, size_sums]
    simp only [byte_sums, Bytes.byte_append, ByteArray.size_append]
    by_cases hj : j < a.size
    · rw [if_pos (by omega), if_pos hj, if_pos hj, if_pos hj]
    · have hposition : position + a.size + ((j - a.size : Nat) : Int) = position + j := by omega
      rw [if_neg hj, if_neg hj, hposition]
      split_ifs <;> first | rfl | omega

variable (old) in
theorem addOld_eq_pushAll (position : Int) (diff : Bytes) (n i : Nat) (out : Bytes) :
    addOld old position diff n i out =
      Bytes.pushAll (fun j => diff.byte j + (old.at? (position + j)).getD 0) n i out := by
  induction n generalizing i out with
  | zero => rfl
  | succ n ih =>
    rw [addOld, Bytes.pushAll, Bytes.get!_eq_byte]
    cases old.at? (position + i) with
    | none =>
      have hnone : diff.byte i + (none : Option UInt8).getD 0 = diff.byte i := UInt8.add_zero _
      rw [hnone]
      exact ih _ _
    | some o => exact ih _ _

variable (old) in
theorem addOld_eq_sums (position : Int) (diff : Bytes) :
    addOld old position diff diff.size 0 ByteArray.empty = sums old position diff :=
  addOld_eq_pushAll old position diff diff.size 0 ByteArray.empty

/-! ## Diff runs -/

theorem extract_add (b : Bytes) (start m n : Nat) :
    b.extract start (start + (m + n)) =
      b.extract start (start + m) ++ b.extract (start + m) (start + m + n) := by
  rw [ByteArray.extract_append_extract]
  congr 1 <;> omega

/-- **A diff run** that its stream covers hands over its sums. -/
theorem diffRun_emits_sums {n : Nat} {c : Cursors} (hold : c.old + n < positionLimit)
    (hdiff : c.diff + n ≤ s.diff.size) :
    (diffRun s old n c).Emits { c with diff := c.diff + n, old := c.old + n }
      (sums old c.old (s.diff.extract c.diff (c.diff + n))) := by
  induction n using Nat.strongRecOn generalizing c with
  | ind n ih =>
    rw [diffRun]
    by_cases hn : n = 0
    · subst hn
      have hc : { c with diff := c.diff + 0, old := c.old + (0 : Nat) } = c := by
        rw [Nat.add_zero, Int.natCast_zero, Int.add_zero]
      rw [if_pos rfl, hc, Nat.add_zero, ByteArray.extract_same]
      exact .pure c
    · obtain ⟨m, hm⟩ : ∃ m, m = min n runSize := ⟨_, rfl⟩
      obtain ⟨k, rfl⟩ : ∃ k, n = m + k := ⟨n - m, by omega⟩
      have hpos : 0 < runSize := by decide
      have hslice : s.diff.slice? c.diff m = some (s.diff.extract c.diff (c.diff + m)) :=
        if_pos (by omega)
      have hpiece : (s.diff.extract c.diff (c.diff + m)).size = m := by
        rw [ByteArray.size_extract]
        omega
      have hsums := addOld_eq_sums old c.old (s.diff.extract c.diff (c.diff + m))
      rw [hpiece] at hsums
      have hrest := ih k (by omega) (c := { c with diff := c.diff + m, old := c.old + m })
        (by dsimp only; omega) (by dsimp only; omega)
      dsimp only at hrest
      have hend : c.old + (m + k : Nat) = c.old + m + k := by omega
      have hleft : m + k - m = k := by omega
      rw [if_neg hn]
      dsimp only
      rw [← hm, if_neg (by omega), hslice, extract_add, sums_append, hpiece, hend, ← Nat.add_assoc]
      dsimp only
      rw [hsums, hleft]
      exact .bind (.emit _) hrest

/-- **A diff run fails** if its stream does not cover it, or the position gets too large. -/
theorem diffRun_fails {n : Nat} {c : Cursors} (hold : c.old < positionLimit)
    (hdiff : c.diff ≤ s.diff.size) (hbad : positionLimit ≤ c.old + n ∨ s.diff.size < c.diff + n) :
    (diffRun s old n c).FailsWithin n := by
  induction n using Nat.strongRecOn generalizing c with
  | ind n ih =>
    have hn : n ≠ 0 := by omega
    obtain ⟨m, hm⟩ : ∃ m, m = min n runSize := ⟨_, rfl⟩
    obtain ⟨k, rfl⟩ : ∃ k, n = m + k := ⟨n - m, by omega⟩
    have hpos : 0 < runSize := by decide
    rw [diffRun, if_neg hn]
    dsimp only
    rw [← hm]
    by_cases hposition : positionLimit ≤ c.old + m
    · rw [if_pos hposition]
      exact .throw _ _
    rw [if_neg hposition]
    by_cases hlength : c.diff + m ≤ s.diff.size
    · have hslice : s.diff.slice? c.diff m = some (s.diff.extract c.diff (c.diff + m)) :=
        if_pos hlength
      have hpiece : (s.diff.extract c.diff (c.diff + m)).size = m := by
        rw [ByteArray.size_extract]
        omega
      have hsums := addOld_eq_sums old c.old (s.diff.extract c.diff (c.diff + m))
      rw [hpiece] at hsums
      have hrest := ih k (by omega) (c := { c with diff := c.diff + m, old := c.old + m })
        (by dsimp only; omega) hlength (by dsimp only; omega)
      rw [hslice]
      dsimp only
      rw [hsums, Nat.add_sub_cancel_left]
      exact .emits_bind (.emit _) hrest (Nat.le_of_eq (by rw [size_sums, hpiece]))
    · have hslice : s.diff.slice? c.diff m = none := if_neg hlength
      rw [hslice]
      exact .throw _ _

/-! ## Extra runs -/

/-- **An extra run** that its stream covers hands it over. -/
theorem extraRun_emits_extract {n : Nat} {c : Cursors} (hextra : c.extra + n ≤ s.extra.size) :
    (extraRun s n c).Emits { c with extra := c.extra + n }
      (s.extra.extract c.extra (c.extra + n)) := by
  induction n using Nat.strongRecOn generalizing c with
  | ind n ih =>
    rw [extraRun]
    by_cases hn : n = 0
    · subst hn
      rw [if_pos rfl, Nat.add_zero, ByteArray.extract_same]
      exact .pure c
    · -- the first piece, and what is left of the run
      obtain ⟨m, hm⟩ : ∃ m, m = min n runSize := ⟨_, rfl⟩
      obtain ⟨k, rfl⟩ : ∃ k, n = m + k := ⟨n - m, by omega⟩
      have hpos : 0 < runSize := by decide
      have hslice : s.extra.slice? c.extra m = some (s.extra.extract c.extra (c.extra + m)) :=
        if_pos (by omega)
      have hrest := ih k (by omega) (c := { c with extra := c.extra + m }) (by dsimp only; omega)
      have hleft : m + k - m = k := by omega
      rw [if_neg hn]
      dsimp only at hrest ⊢
      rw [← hm, hslice, extract_add, ← Nat.add_assoc]
      dsimp only
      rw [hleft]
      exact .bind (.emit _) hrest

/-- **An extra run fails** if its stream does not cover it. -/
theorem extraRun_fails {n : Nat} {c : Cursors} (hextra : c.extra ≤ s.extra.size)
    (hbad : s.extra.size < c.extra + n) : (extraRun s n c).FailsWithin n := by
  induction n using Nat.strongRecOn generalizing c with
  | ind n ih =>
    have hn : n ≠ 0 := by omega
    obtain ⟨m, hm⟩ : ∃ m, m = min n runSize := ⟨_, rfl⟩
    obtain ⟨k, rfl⟩ : ∃ k, n = m + k := ⟨n - m, by omega⟩
    have hpos : 0 < runSize := by decide
    rw [extraRun, if_neg hn]
    dsimp only
    rw [← hm]
    by_cases hlength : c.extra + m ≤ s.extra.size
    · have hslice : s.extra.slice? c.extra m = some (s.extra.extract c.extra (c.extra + m)) :=
        if_pos hlength
      have hrest := ih k (by omega) (c := { c with extra := c.extra + m }) hlength
        (by dsimp only; omega)
      rw [hslice]
      dsimp only
      rw [Nat.add_sub_cancel_left]
      refine .emits_bind (.emit _) hrest ?_
      rw [ByteArray.size_extract]
      omega
    · have hslice : s.extra.slice? c.extra m = none := if_neg hlength
      rw [hslice]
      exact .throw _ _

end BlockPatch

end BlockUpdate
