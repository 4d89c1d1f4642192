import BlockUpdate.Proofs.AgreementBlocks
import BlockUpdate.Proofs.Descriptors
import BlockUpdate.Proofs.ReadBack

/-!
# What a writer counts

Calls of a writer may fail in the middle of a piece. Its count is exact at any rate: it counts the
bytes of all device writes that succeeded, and tells where in its set the next byte goes. On words
all of this is so if the size of the set fits one. A writer of a larger set takes the lowest bits of
that size for what it has to write.

- `BlockWriter.Call`, `calls`: any calls one after the other, whatever becomes of them.
- **`outcome_make`**: one call on any device.
- **`calls_moved`**, **`calls_dryRun`**, **`calls_live`**: the count after any calls, and what calls
  answer and leave if no write fails.
- `Compiled.make`, `Compiled.calls`: the same on words, and **`Compiled.calls_eq`**.
- **`calls_exact`**: all of these of a writer from its start on, however the program is built.
- `put_in_part`: a failed device write may leave the front of a piece that must be taken whole.
- **`calls_not_exact`**: that, and a writer that is full before it got anything.
-/

namespace BlockUpdate

open BlockSet (placing)
open Decimal (limit64)

namespace BlockWriter

variable {s : Writing} {piece : Bytes}

/-! ## Calls -/

/-- A call of a writer. -/
inductive Call
  /-- Write as much of a piece as fits. -/
  | write (piece : Bytes)
  /-- Take a piece whole. -/
  | put (piece : Bytes)

namespace Call

/-- Makes a call; gives how much of the piece was consumed. -/
def make : Call → WritingM PatchError Nat
  | write piece => mapError .os (BlockWriter.write piece)
  | put piece => do
    BlockWriter.put piece
    return piece.size

/-- What a call takes if there is a given room. -/
def taken (room : Nat) : Call → Bytes
  | write piece => piece.takeFirst room
  | put piece => if room < piece.size then ByteArray.empty else piece

/-- What a call answers if no write fails. -/
def answer (room : Nat) : Call → Except PatchError Nat
  | write piece => .ok (min room piece.size)
  | put piece =>
    if room < piece.size then .error (.outOfRange (.targetFull (piece.size - room)))
    else .ok piece.size

/-- What becomes of a call on the device. -/
def attempts (s : Writing) (c : Call) : Nat × Except OsError Unit × Device :=
  BlockWriter.attempts s (c.taken s.writer.remaining)

theorem size_taken_le (room : Nat) (c : Call) : (c.taken room).size ≤ room := by
  cases c with
  | write piece =>
    rw [taken, Bytes.size_takeFirst]
    exact Nat.min_le_left ..
  | put piece =>
    rw [taken]
    split_ifs with h
    · exact Nat.zero_le _
    · exact Nat.le_of_not_lt h

/-- **A call on any device**: the writer counts the bytes of the writes that succeeded, and a failed
one is what the call answers. -/
theorem outcome_make (h : s.writer.Counted) (hset : s.writer.set.Sound) (c : Call) :
    ∃ w, Moved s.writer w (c.attempts s).1 ∧
      outcome c.make s =
        ((c.attempts s).2.1.mapError .os >>= fun _ => c.answer s.writer.remaining,
          ⟨w, (c.attempts s).2.2⟩) := by
  cases c with
  | write piece =>
    obtain ⟨w, hw, hrun⟩ := outcome_write h hset piece
    have hattempts : (Call.write piece).attempts s = BlockWriter.attempts s piece :=
      attempts_takeFirst h hset piece
    rw [hattempts]
    refine ⟨w, hw, ?_⟩
    rw [make, outcome_writerMapError, hrun]
    rcases hresult : (BlockWriter.attempts s piece).2.1 with e | ⟨⟩
    · rfl
    · rw [attempts_of_ok h hset hresult, Nat.min_comm]
      rfl
  | put piece =>
    by_cases hlong : s.writer.remaining < piece.size
    · have hattempts : (Call.put piece).attempts s = (0, .ok (), s.device) := by
        rw [attempts, taken, if_pos hlong]
        exact BlockSet.attemptAll_placing_empty ..
      rw [hattempts]
      refine ⟨s.writer, h.refl, ?_⟩
      rw [make, outcome_bind_of_error (outcome_put_of_lt hlong), answer, if_pos hlong]
      rfl
    · obtain ⟨w, hw, hrun⟩ := outcome_write h hset piece
      have hattempts : (Call.put piece).attempts s = BlockWriter.attempts s piece := by
        rw [attempts, taken, if_neg hlong]
      rw [hattempts]
      refine ⟨w, hw, ?_⟩
      rw [make, outcome_bind, outcome_put_of_le (Nat.le_of_not_lt hlong), hrun, answer,
        if_neg hlong]
      rcases (BlockWriter.attempts s piece).2.1 with e | ⟨⟩ <;> rfl

/-- A call without a failed write. -/
theorem outcome_make_of_ok (h : s.writer.Counted) (hset : s.writer.set.Sound) {c : Call}
    (hok : (c.attempts s).2.1 = .ok ()) :
    ∃ w, Moved s.writer w (c.taken s.writer.remaining).size ∧
      outcome c.make s = (c.answer s.writer.remaining, ⟨w, (c.attempts s).2.2⟩) := by
  obtain ⟨w, hw, hrun⟩ := outcome_make h hset c
  have hcount : (c.attempts s).1 = (c.taken s.writer.remaining).size := by
    rw [attempts, attempts_of_ok h hset hok]
    exact Nat.min_eq_left (size_taken_le ..)
  rw [hok] at hrun
  exact ⟨w, hcount ▸ hw, hrun⟩

end Call

/-- Makes calls one after the other, whatever they answer. -/
def calls : List Call → Writing → List (Except PatchError Nat) × Writing
  | [], s => ([], s)
  | c :: cs, s =>
    ((outcome c.make s).1 :: (calls cs (outcome c.make s).2).1, (calls cs (outcome c.make s).2).2)

/-- The number of bytes of all device writes that succeeded during some calls. -/
def recorded : List Call → Writing → Nat
  | [], _ => 0
  | c :: cs, s => (c.attempts s).1 + recorded cs (outcome c.make s).2

/-- What calls take if there is a given room and no write fails. -/
def taken (room : Nat) : List Call → Bytes
  | [] => ByteArray.empty
  | c :: cs => c.taken room ++ taken (room - (c.taken room).size) cs

/-- What calls answer if there is a given room and no write fails. -/
def answers (room : Nat) : List Call → List (Except PatchError Nat)
  | [] => []
  | c :: cs => c.answer room :: answers (room - (c.taken room).size) cs

/-- **Any calls on any device** keep the count. -/
theorem calls_moved (h : s.writer.Counted) (hset : s.writer.set.Sound) (cs : List Call) :
    Moved s.writer (calls cs s).2.writer (recorded cs s) := by
  induction cs generalizing s with
  | nil => exact h.refl
  | cons c cs ih =>
    obtain ⟨w, hw, hrun⟩ := Call.outcome_make h hset c
    rw [calls, recorded, hrun]
    exact hw.trans (@ih ⟨w, (c.attempts s).2.2⟩ hw.counted (hw.set_eq ▸ hset))

/-- **Calls of a dry run** are answered as if no write failed, and the device is left alone. -/
theorem calls_dryRun (h : s.writer.Counted) (hset : s.writer.set.Sound)
    (hdry : s.writer.dryRun = true) (cs : List Call) :
    (calls cs s).1 = answers s.writer.remaining cs ∧
      Moved s.writer (calls cs s).2.writer (taken s.writer.remaining cs).size ∧
      (calls cs s).2.device = s.device := by
  induction cs generalizing s with
  | nil => exact ⟨rfl, h.refl, rfl⟩
  | cons c cs ih =>
    have hattempts : (c.attempts s).2 = (.ok (), s.device) := by
      rw [Call.attempts, attempts, hdry, Device.attemptAll_dryRun]
    obtain ⟨w, hw, hrun⟩ := Call.outcome_make_of_ok h hset (c := c) (by rw [hattempts])
    rw [hattempts] at hrun
    obtain ⟨hanswers, hmoved, hdevice⟩ := @ih ⟨w, s.device⟩ hw.counted
      (by rw [hw.set_eq]; exact hset) (by rw [hw.dryRun_eq]; exact hdry)
    simp only [hw.remaining_eq] at hanswers hmoved
    rw [calls, answers, taken, hrun, ByteArray.size_append]
    exact ⟨by rw [hanswers], hw.trans hmoved, hdevice⟩

/-- A writer that filled the front of a set, of a device whose writes succeed. -/
structure Filled (set : BlockSet) (image front : Bytes) (s : Writing) : Prop where
  counted : s.writer.Counted
  set_eq : s.writer.set = set
  live : s.writer.dryRun = false
  writes : ∀ k, s.device.faults.write k = none
  written_eq : s.writer.written = front.size
  image_eq : s.device.image = image.overwrite (placing set.ranges 0 front)

namespace Filled

variable {set : BlockSet} {image front : Bytes}

/-- **A call** of such a writer takes what there is room for. -/
theorem make (h : Filled set image front s) (hset : set.Sound)
    (hlimit : ∀ r ∈ set.ranges, r.byteStart + r.byteLength ≤ Device.offsetLimit) (c : Call) :
    (outcome c.make s).1 = c.answer s.writer.remaining ∧
      Filled set image (front ++ c.taken s.writer.remaining) (outcome c.make s).2 ∧
      Moved s.writer (outcome c.make s).2.writer (c.taken s.writer.remaining).size := by
  have hsound : s.writer.set.Sound := h.set_eq ▸ hset
  obtain ⟨d, hattempts, himage, hfaults⟩ := Device.attemptAll_live h.writes
    fun w (hw : w ∈ placing (s.writer.set.ranges.drop s.writer.rangeIndex) s.writer.rangeOffset
      (c.taken s.writer.remaining)) => BlockSet.offset_lt_of_mem_placing
        (fun r hr => hlimit r (h.set_eq ▸ List.mem_of_mem_drop hr)) hw
  have hresult : (c.attempts s).2 = (.ok (), d) := by
    rw [Call.attempts, attempts, h.live, hattempts]
  obtain ⟨w, hw, hrun⟩ := Call.outcome_make_of_ok h.counted hsound (c := c) (by rw [hresult])
  rw [hresult] at hrun
  rw [hrun]
  refine ⟨rfl, ⟨hw.counted, hw.set_eq.trans h.set_eq, hw.dryRun_eq.trans h.live, ?_, ?_, ?_⟩, hw⟩
  · show ∀ k, d.faults.write k = none
    rw [hfaults]
    exact h.writes
  · rw [ByteArray.size_append, ← h.written_eq]
    exact hw.written_eq
  · have hfront := h.counted.written_eq
    have hroom := h.counted.room
    rw [h.written_eq, h.set_eq] at hfront
    rw [h.set_eq] at hroom himage
    show d.image = _
    rw [himage, h.image_eq, BlockSet.overwrite_placing_append hfront hroom]

end Filled

/-- **Calls of a writer on a device whose writes succeed**: it fills its set with what it takes. -/
theorem calls_live {set : BlockSet} {image front : Bytes} (hset : set.Sound)
    (hlimit : ∀ r ∈ set.ranges, r.byteStart + r.byteLength ≤ Device.offsetLimit)
    (h : Filled set image front s) (cs : List Call) :
    (calls cs s).1 = answers s.writer.remaining cs ∧
      Filled set image (front ++ taken s.writer.remaining cs) (calls cs s).2 := by
  induction cs generalizing s front with
  | nil =>
    refine ⟨rfl, ?_⟩
    rwa [taken, ByteArray.append_empty]
  | cons c cs ih =>
    obtain ⟨hanswer, hfilled, hmoved⟩ := h.make hset hlimit c
    obtain ⟨hanswers, hrest⟩ := ih hfilled
    rw [hmoved.remaining_eq] at hanswers hrest
    rw [calls, answers, taken, hanswer, hanswers, ← ByteArray.append_assoc]
    exact ⟨rfl, hrest⟩

/-! ## Pieces -/

/-- Pieces to be written are taken as if they were one. -/
theorem taken_write (room : Nat) (pieces : List Bytes) :
    taken room (pieces.map Call.write) = (Bytes.join pieces).takeFirst room := by
  induction pieces generalizing room with
  | nil => exact (Bytes.takeFirst_of_size_le (Nat.zero_le _)).symm
  | cons piece rest ih =>
    rw [List.map_cons, taken, ih, Bytes.join_cons, Call.taken]
    refine Bytes.ext_byte ?_ fun i => ?_
    · simp only [ByteArray.size_append, Bytes.size_takeFirst]
      omega
    · simp only [Bytes.byte_append, Bytes.byte_takeFirst, Bytes.size_takeFirst]
      split_ifs <;> first | rfl | omega | (congr 1; omega)

/-- The pieces together are consumed as far as they fit. -/
theorem answers_write (room : Nat) (pieces : List Bytes) :
    ∃ counts : List Nat, answers room (pieces.map Call.write) = counts.map Except.ok ∧
      counts.sum = min (Bytes.join pieces).size room := by
  induction pieces generalizing room with
  | nil => exact ⟨[], rfl, (Nat.zero_min room).symm⟩
  | cons piece rest ih =>
    obtain ⟨counts, hanswers, hsum⟩ := ih (room - min room piece.size)
    refine ⟨min room piece.size :: counts, ?_, ?_⟩
    · rw [List.map_cons, answers, Call.taken, Bytes.size_takeFirst, hanswers]
      rfl
    · rw [List.sum_cons, hsum, Bytes.join_cons, ByteArray.size_append]
      omega

end BlockWriter

namespace Compiled

/-! ## Words -/

variable {b : Build} {set : BlockSet} {s : Writing}

/-- Makes a call on words. -/
def make (b : Build) : BlockWriter.Call → CompiledM PatchError Writing Nat
  | .write piece => rename .os (writePiece b piece)
  | .put piece => do
    put b piece
    return piece.size

/-- Makes calls one after the other, whatever they answer. -/
def calls (b : Build) :
    List BlockWriter.Call → Writing → List (Except (Halt PatchError) Nat) × Writing
  | [], s => ([], s)
  | c :: cs, s =>
    ((outcome (make b c) s).1 :: (calls b cs (outcome (make b c) s).2).1,
      (calls b cs (outcome (make b c) s).2).2)

/-- The number of bytes of all device writes that succeeded during some calls. -/
def recorded (b : Build) : List BlockWriter.Call → Writing → Nat
  | [], _ => 0
  | c :: cs, s => (c.attempts s).1 + recorded b cs (outcome (make b c) s).2

/-- A call on words, if the size of the set fits one. -/
theorem make_eq (hset : set.Valid) (hfits : set.byteLength < limit64) (h : Filling set s.writer)
    (c : BlockWriter.Call) :
    outcome (make b c) s = (unchecked (outcome c.make s).1, (outcome c.make s).2) := by
  cases c with
  | write piece =>
    have hwrite : Agrees b (limit64 ≤ set.byteLength) (make b (.write piece))
        (BlockWriter.Call.write piece).make s :=
      (agrees_writePiece hset hfits h piece).rename (outcome_writerMapError _ _ _)
    exact hwrite.eq_of_lt hfits
  | put piece =>
    have hput : Agrees b (limit64 ≤ set.byteLength) (make b (.put piece))
        (BlockWriter.Call.put piece).make s :=
      (agrees_put hset h piece).bind fun _ t _ => Agrees.pure _ t
    exact hput.eq_of_lt hfits

/-- A call leaves a writer on its way. -/
theorem Filling.make (hset : set.Valid) (h : Filling set s.writer) (c : BlockWriter.Call) :
    Filling set (outcome c.make s).2.writer := by
  obtain ⟨w, hw, hrun⟩ := BlockWriter.Call.outcome_make h.counted (h.set_eq.symm ▸ hset.sound) c
  rw [hrun]
  exact h.moved hw

/-- **Any calls on words**, if the size of the set fits one. -/
theorem calls_eq (hset : set.Valid) (hfits : set.byteLength < limit64) (h : Filling set s.writer)
    (cs : List BlockWriter.Call) :
    calls b cs s = ((BlockWriter.calls cs s).1.map unchecked, (BlockWriter.calls cs s).2) ∧
      recorded b cs s = BlockWriter.recorded cs s := by
  induction cs generalizing s with
  | nil => exact ⟨rfl, rfl⟩
  | cons c cs ih =>
    obtain ⟨hcalls, hrecorded⟩ := ih (h.make hset c)
    rw [calls, recorded, make_eq hset hfits h c, hcalls, hrecorded]
    exact ⟨rfl, rfl⟩

end Compiled

namespace BlockWriter

/-! ## All of a writer -/

/-- What the writer of a set tells after `n` bytes: the bytes of the ranges that are full and of the
part of the next one, never more than the set has, and whether all ranges are full. -/
structure ExactCount (b : Build) (set : BlockSet) (w : BlockWriter) (n : Nat) : Prop where
  written_eq : w.written = n
  position_eq : w.written = rangesLength (set.ranges.take w.rangeIndex) + w.rangeOffset
  expected_eq {ε : Type} : (Compiled.byteLength b w.set : Except (Halt ε) Nat) = .ok set.byteLength
  written_le : w.written ≤ set.byteLength
  remaining_eq {ε : Type} :
    (Compiled.remaining b w : Except (Halt ε) Nat) = .ok (set.byteLength - w.written)
  isDone_eq {ε : Type} : (Compiled.isDone b w : Except (Halt ε) Bool) =
    .ok (decide (w.rangeIndex = set.ranges.length))

/-- A piece is put whole or not at all, except where a device write fails: one that does not fit is
refused and changes nothing, and one that fits is written. -/
structure PutWhole (b : Build) (s : Writing) (piece : Bytes) : Prop where
  refused : s.writer.remaining < piece.size → outcome (Compiled.put b piece) s =
    (.error (.failed (.outOfRange (.targetFull (piece.size - s.writer.remaining)))), s)
  written : piece.size ≤ s.writer.remaining → outcome (Compiled.put b piece) s =
    (((outcome (Compiled.writePiece b piece) s).1.mapError (.map .os)).map fun _ => (),
      (outcome (Compiled.writePiece b piece) s).2)
  whole : (outcome (Compiled.put b piece) s).1 = .ok () →
    (outcome (Compiled.put b piece) s).2.writer.written = s.writer.written + piece.size

section Words

open Compiled (Filling unchecked)

variable {b : Build} {set : BlockSet}

theorem exactCount_of_filling (hset : set.Valid) (hfits : set.byteLength < limit64)
    {w : BlockWriter} (h : Filling set w) (hindex : w.rangeIndex ≤ set.ranges.length) :
    ExactCount b set w w.written where
  written_eq := rfl
  position_eq := by
    have hposition := h.counted.written_eq
    rwa [h.set_eq] at hposition
  expected_eq := by
    intro ε
    rw [(Compiled.sized_expected h).fits hfits, expected, h.set_eq]
  written_le := h.written_le hset
  remaining_eq := by
    intro ε
    rw [(Compiled.sized_remaining hset h).fits hfits, remaining, expected, h.set_eq]
  isDone_eq := by
    intro ε
    have hdone := h.counted.isDone_iff (h.set_eq.symm ▸ hset.sound) (h.set_eq.symm ▸ hindex)
    rw [h.set_eq] at hdone
    rw [(Compiled.sized_isDone h).fits hfits,
      Bool.eq_iff_iff.mpr (hdone.trans decide_eq_true_iff.symm)]

theorem putWhole_of_filling (hset : set.Valid) (hfits : set.byteLength < limit64)
    (h : Filling set s.writer) (piece : Bytes) : PutWhole b s piece := by
  have hput := (Compiled.agrees_put (b := b) hset h piece).eq_of_lt hfits
  have hwrite : outcome (Compiled.writePiece b piece) s = _ :=
    (Compiled.agrees_writePiece hset hfits h piece).eq_of_lt hfits
  refine ⟨fun hlong => ?_, fun hfit => ?_, fun hok => ?_⟩
  · rw [hput, outcome_put_of_lt hlong]
    rfl
  · rw [hput, outcome_put_of_le hfit, hwrite]
    rcases (outcome (write piece) s).1 with e | n <;> rfl
  · rw [hput] at hok ⊢
    have hok : (outcome (put piece) s).1 = .ok () := mapError_eq_ok.mp hok
    have hfit : piece.size ≤ s.writer.remaining := by
      refine Nat.le_of_not_lt fun hlong => ?_
      rw [outcome_put_of_lt hlong] at hok
      cases hok
    obtain ⟨w, hw, hrun⟩ := outcome_write h.counted (h.set_eq.symm ▸ hset.sound) piece
    rw [outcome_put_of_le hfit, hrun] at hok ⊢
    rcases hresult : (attempts s piece).2.1 with e | ⟨⟩
    · rw [hresult] at hok
      cases hok
    · show w.written = _
      rw [hw.written_eq, attempts_of_ok h.counted (h.set_eq.symm ▸ hset.sound) hresult,
        Nat.min_eq_left hfit]

end Words

section Start

variable {set : BlockSet}

/-- **Whatever fails, the count is exact**, and only a failed write leaves a piece in part. -/
theorem exactCount_calls (b : Build) (hset : set.Valid) (hfits : set.byteLength < limit64)
    (dry : Bool) (d : Device) (cs : List Call) :
    ExactCount b set (calls cs ⟨BlockWriter.new set dry, d⟩).2.writer
        (recorded cs ⟨BlockWriter.new set dry, d⟩) ∧
      ∀ piece, PutWhole b (calls cs ⟨BlockWriter.new set dry, d⟩).2 piece := by
  have hstart := Compiled.Filling.new hset dry
  have hmoved := calls_moved (s := ⟨BlockWriter.new set dry, d⟩) hstart.counted hset.sound cs
  have hfilling := hstart.moved hmoved
  have hexact := exactCount_of_filling (b := b) hset hfits hfilling
    (hmoved.index_le (Nat.zero_le _))
  rw [hmoved.written_eq, show (BlockWriter.new set dry).written = 0 from rfl,
    Nat.zero_add] at hexact
  exact ⟨hexact, putWhole_of_filling hset hfits hfilling⟩

/-- **What a writer on a device whose writes succeed leaves** is what it took, across its set. -/
theorem image_calls (hset : set.Sound) {d : Device} (hwrites : ∀ k, d.faults.write k = none)
    (hlimit : ∀ r ∈ set.ranges, r.byteStart + r.byteLength ≤ Device.offsetLimit) (cs : List Call) :
    (calls cs ⟨BlockWriter.new set false, d⟩).1 = answers set.byteLength cs ∧
      (calls cs ⟨BlockWriter.new set false, d⟩).2.writer.written =
        (taken set.byteLength cs).size ∧
      (calls cs ⟨BlockWriter.new set false, d⟩).2.device.image =
        d.image.overwrite (placing set.ranges 0 (taken set.byteLength cs)) := by
  have hstart : Filled set d.image ByteArray.empty ⟨BlockWriter.new set false, d⟩ :=
    ⟨Counted.new hset false, rfl, rfl, hwrites, rfl,
      (BlockSet.overwrite_placing_empty set.ranges 0 d.image).symm⟩
  obtain ⟨hanswers, hfilled⟩ := calls_live hset hlimit hstart cs
  rw [ByteArray.empty_append] at hfilled
  exact ⟨hanswers, hfilled.written_eq, hfilled.image_eq⟩

/-- **Pieces that are written one by one** lie as a buffer that is written at once. -/
theorem image_pieces (hset : set.Sound) {d : Device} (hwrites : ∀ k, d.faults.write k = none)
    (hlimit : ∀ r ∈ set.ranges, r.byteStart + r.byteLength ≤ Device.offsetLimit)
    (pieces : List Bytes) {n : Nat} (hn : n = min (Bytes.join pieces).size set.byteLength) :
    let run := calls (pieces.map Call.write) ⟨BlockWriter.new set false, d⟩
    (∃ counts : List Nat, run.1 = counts.map Except.ok ∧ counts.sum = n) ∧
      run.2.writer.written = n ∧
      run.2.device.image =
        d.image.overwrite (placing set.ranges 0 ((Bytes.join pieces).takeFirst n)) ∧
      (n = set.byteLength → ∃ d', outcome (set.write (Bytes.join pieces)) d = (.ok n, d') ∧
        d'.image = run.2.device.image) := by
  intro run
  obtain ⟨hanswers, hwritten, himage⟩ := image_calls hset hwrites hlimit (pieces.map Call.write)
  obtain ⟨counts, hcounts, hsum⟩ := answers_write set.byteLength pieces
  have htaken : taken set.byteLength (pieces.map Call.write) = (Bytes.join pieces).takeFirst n := by
    rw [taken_write, hn, Bytes.takeFirst_min]
  rw [htaken] at hwritten himage
  refine ⟨⟨counts, hanswers.trans hcounts, hsum.trans hn.symm⟩, ?_, himage, fun hfull => ?_⟩
  · rw [hwritten, Bytes.size_takeFirst]
    omega
  · have hstarts : ∀ r ∈ set.ranges, r.byteStart < Device.offsetLimit := fun r hr => by
      have := BlockRange.byteLength_pos (hset.nonempty r hr)
      have := hlimit r hr
      omega
    refine ⟨_, hfull ▸ BlockSet.write_of_reliable hset (by omega) hwrites hstarts, ?_⟩
    have hall := @BlockSet.placing_takeFirst set.ranges 0 (fun _ _ => Nat.zero_le _)
      (Bytes.join pieces)
    rw [Nat.sub_zero, ← hset.byteLength_eq] at hall
    rw [himage, hfull, hall]
    rfl

/-- A dry run answers and counts as if no write failed. -/
theorem answers_dryRun (hset : set.Sound) (d : Device) (cs : List Call) :
    let run := calls cs ⟨BlockWriter.new set true, d⟩
    run.2.device = d ∧
    ∀ d' : Device, (∀ k, d'.faults.write k = none) →
      (∀ r ∈ set.ranges, r.byteStart + r.byteLength ≤ Device.offsetLimit) →
      let live := calls cs ⟨BlockWriter.new set false, d'⟩
      run.1 = live.1 ∧ run.2.writer.written = live.2.writer.written := by
  obtain ⟨hanswers, hmoved, hdevice⟩ :=
    calls_dryRun (s := ⟨BlockWriter.new set true, d⟩) (Counted.new hset true) hset rfl cs
  refine ⟨hdevice, fun d' hwrites hlimit => ?_⟩
  obtain ⟨hlive, hwritten, -⟩ := image_calls hset hwrites hlimit cs
  refine ⟨hanswers.trans hlive.symm, ?_⟩
  rw [hwritten]
  exact hmoved.written_eq.trans (Nat.zero_add _)

/-- **The calls of a writer**, however the program is built, if the size of the set fits a word.
Whatever fails, its count is exact, and a piece that must be taken whole and does not fit changes
nothing. If no write fails, what it takes lies across the set in order, as if it were written at
once. A dry run answers and counts as if no write failed, and leaves the device alone. -/
theorem calls_exact (b : Build) (hset : set.Valid) (hfits : set.byteLength < 2 ^ 64) (d : Device) :
    (∀ dry cs, let run := Compiled.calls b cs ⟨BlockWriter.new set dry, d⟩
      ExactCount b set run.2.writer (Compiled.recorded b cs ⟨BlockWriter.new set dry, d⟩) ∧
        ∀ piece, PutWhole b run.2 piece) ∧
    ((∀ k, d.faults.write k = none) →
      (∀ r ∈ set.ranges, r.byteStart + r.byteLength ≤ Device.offsetLimit) →
      ∀ (pieces : List Bytes) n, n = min (Bytes.join pieces).size set.byteLength →
        let run := Compiled.calls b (pieces.map Call.write) ⟨BlockWriter.new set false, d⟩
        (∃ counts : List Nat, run.1 = counts.map Except.ok ∧ counts.sum = n) ∧
        run.2.writer.written = n ∧
        run.2.device.image =
          d.image.overwrite (placing set.ranges 0 ((Bytes.join pieces).takeFirst n)) ∧
        (n = set.byteLength →
          ∃ d', outcome (Compiled.write b set (Bytes.join pieces)) d = (.ok n, d') ∧
            d'.image = run.2.device.image)) ∧
    (∀ cs, let run := Compiled.calls b cs ⟨BlockWriter.new set true, d⟩
      run.2.device = d ∧
      ∀ d' : Device, (∀ k, d'.faults.write k = none) →
        (∀ r ∈ set.ranges, r.byteStart + r.byteLength ≤ Device.offsetLimit) →
        let live := Compiled.calls b cs ⟨BlockWriter.new set false, d'⟩
        run.1 = live.1 ∧ run.2.writer.written = live.2.writer.written) := by
  have hcalls (dry : Bool) (d : Device) (cs : List Call) := Compiled.calls_eq (b := b) hset hfits
    (s := ⟨BlockWriter.new set dry, d⟩) (Compiled.Filling.new hset dry) cs
  refine ⟨fun dry cs => ?_, fun hwrites hlimit pieces n hn => ?_, fun cs => ?_⟩
  · obtain ⟨hrun, hrecorded⟩ := hcalls dry d cs
    rw [hrun, hrecorded]
    exact exactCount_calls b hset hfits dry d cs
  · obtain ⟨⟨counts, hcounts, hsum⟩, hwritten, himage, hwhole⟩ :=
      image_pieces hset.sound hwrites hlimit pieces hn
    rw [(hcalls false d _).1]
    refine ⟨⟨counts, ?_, hsum⟩, hwritten, himage, fun hfull => ?_⟩
    · rw [hcounts, List.map_map]
      rfl
    · obtain ⟨d', hwrite, himage'⟩ := hwhole hfull
      have hword := (Compiled.agrees_write (b := b) hset (Bytes.join pieces) d).eq_of_lt hfits
      rw [hwrite] at hword
      exact ⟨d', hword, himage'⟩
  · obtain ⟨hdevice, hsame⟩ := answers_dryRun hset.sound d cs
    rw [(hcalls true d cs).1]
    refine ⟨hdevice, fun d' hwrites hlimit => ?_⟩
    obtain ⟨hanswers, hcounts⟩ := hsame d' hwrites hlimit
    rw [(hcalls false d' cs).1]
    exact ⟨congrArg (List.map Compiled.unchecked) hanswers, hcounts⟩

end Start

/-- Two pieces on two overlapping ranges, the second of which does not fit as a whole. -/
theorem calls_exact_overlap :
    let set : BlockSet := ⟨[⟨1, 1⟩, ⟨0, 2⟩], 3⟩
    let d := Device.file (Bytes.replicate 100 7)
    let pieces := [Bytes.replicate 5000 1, Bytes.replicate 9000 2]
    ∃ run dry,
      Compiled.calls .wrapping (pieces.map Call.write) ⟨BlockWriter.new set false, d⟩ = run ∧
      Compiled.calls .wrapping (pieces.map Call.write) ⟨BlockWriter.new set true, d⟩ = dry ∧
      run.2.writer.written = 12288 ∧
      (Compiled.isDone .wrapping run.2.writer : Except (Halt OsError) Bool) = .ok true ∧
      dry.1 = run.1 ∧ dry.2.writer.written = 12288 ∧ dry.2.device = d ∧
      ∃ d', outcome (Compiled.write .wrapping set (Bytes.join pieces)) d = (.ok 12288, d') ∧
        d'.image = run.2.device.image := by
  intro set d pieces
  have hset : set.Valid := (BlockSet.Built.parse (by rfl : BlockSet.parse "4,1,2,0,2" = _)).valid
  have hlength : set.byteLength = 12288 := by decide
  have hlimit : ∀ r ∈ set.ranges, r.byteStart + r.byteLength ≤ Device.offsetLimit := by
    simp [set, BlockRange.byteStart, BlockRange.byteLength, blockSize, Device.offsetLimit]
  have hn : 12288 = min (Bytes.join pieces).size set.byteLength := by
    simp [hlength, pieces, ByteArray.size_append]
  obtain ⟨hcount, hlive, hdry⟩ := calls_exact .wrapping hset (by rw [hlength]; decide) d
  obtain ⟨-, hwritten, -, hwhole⟩ := hlive (fun _ => rfl) hlimit pieces 12288 hn
  obtain ⟨hdevice, hsame⟩ := hdry (pieces.map Call.write)
  obtain ⟨hanswers, hcounted⟩ := hsame d (fun _ => rfl) hlimit
  obtain ⟨hexact, -⟩ := hcount false (pieces.map Call.write)
  refine ⟨_, _, rfl, rfl, hwritten, ?_, hanswers, hcounted.trans hwritten, hdevice,
    hwhole hlength.symm⟩
  rw [Compiled.isDone, hexact.expected_eq, hlength]
  exact congrArg (fun n => Except.ok (n == 12288)) hwritten

/-- A piece fits, but the second of its two ranges has no valid offset: the first was written. -/
theorem put_in_part (b : Build) :
    let set : BlockSet := ⟨[⟨0, 1⟩, ⟨2251799813685248, 1⟩], 2⟩
    let s : Writing := ⟨BlockWriter.new set false, Device.file (Bytes.replicate 4096 7)⟩
    let piece := Bytes.replicate 8192 1
    piece.size ≤ s.writer.remaining ∧
      ∃ s', outcome (Compiled.put b piece) s =
          (.error (.failed (.os (.errno Errno.invalid))), s') ∧
        s'.writer.written = 4096 ∧ s'.device.image ≠ s.device.image := by
  intro set s piece
  have hset : set.Valid := (BlockSet.Built.parse
    (by rfl : BlockSet.parse "4,0,1,2251799813685248,2251799813685249" = _)).valid
  have hlength : set.byteLength = 8192 := by decide
  have hfits : piece.size ≤ s.writer.remaining := by
    show piece.size ≤ set.byteLength - 0
    simp [hlength, piece]
  have hcut : placing set.ranges 0 piece = [⟨0, piece.takeFirst 4096⟩,
      ⟨9223372036854775808, (piece.dropFirst 4096).takeFirst 4096⟩] := by
    simp [set, placing, BlockRange.byteStart, BlockRange.byteLength, blockSize]
  have hfirst : (piece.takeFirst 4096).size = 4096 := by simp [piece]
  have hsecond : ((piece.dropFirst 4096).takeFirst 4096).size = 4096 := by simp [piece]
  have hattempts : attempts s piece =
      (4096, .error (.errno Errno.invalid), s.device.after [⟨0, piece.takeFirst 4096⟩]) := by
    show s.device.attemptAll false (placing set.ranges 0 piece) = _
    rw [hcut, Device.attemptAll_of_invalid rfl (by rw [hfirst]; decide) (by decide)
      (by rw [hsecond]; decide) (by decide), hfirst]
  obtain ⟨w, hw, hrun⟩ := outcome_write (s := s) (Counted.new hset.sound false) hset.sound piece
  rw [hattempts] at hw hrun
  have hput := (Compiled.agrees_put (b := b) hset (Compiled.Filling.new hset false) (s := s)
    piece).eq_of_lt (by rw [hlength]; decide)
  refine ⟨hfits, ⟨w, s.device.after [⟨0, piece.takeFirst 4096⟩]⟩, ?_, hw.written_eq,
    fun himage => ?_⟩
  · rw [hput, outcome_put_of_le hfits, hrun]
    rfl
  · have hcovers : (⟨0, piece.takeFirst 4096⟩ : Write).Covers 0 :=
      ⟨Nat.le_refl 0, by rw [hfirst]; decide⟩
    have hbyte := Bytes.byte_after_of_covers s.device.image hcovers
    simp only [Device.after_image, Bytes.overwrite] at himage
    rw [himage, Bytes.byte_takeFirst, if_pos (by decide)] at hbyte
    simp [s, piece, Device.file, Bytes.byte, Bytes.replicate] at hbyte

/-- **Calls that are not exact.** A put that fails leaves a part of its piece on the device. And
where sizes are not checked, a writer whose set is too large is done before it has any of it. -/
theorem calls_not_exact :
    (let set : BlockSet := ⟨[⟨0, 1⟩, ⟨2251799813685248, 1⟩], 2⟩
      let s : Writing := ⟨BlockWriter.new set false, Device.file (Bytes.replicate 4096 7)⟩
      BlockSet.parse "4,0,1,2251799813685248,2251799813685249" = .ok set ∧
      ∃ s', (outcome (Compiled.put .checked (Bytes.replicate 8192 1)) s) =
          (.error (.failed (.os (.errno Errno.invalid))), s') ∧
        s'.writer.written = 4096 ∧ s'.device.image ≠ s.device.image) ∧
    BlockSet.parse BlockSet.quadrupledText = .ok BlockSet.quadrupled ∧
    (Compiled.isDone .wrapping (BlockWriter.new BlockSet.quadrupled false) :
      Except (Halt OsError) Bool) = .ok true ∧
    (BlockWriter.new BlockSet.quadrupled false).rangeIndex ≠
      BlockSet.quadrupled.ranges.length := by
  refine ⟨⟨by rfl, (put_in_part .checked).2⟩, BlockSet.parse_quadrupled, ?_, by decide⟩
  show (Compiled.byteLength .wrapping BlockSet.quadrupled >>= fun _ => _) = _
  rw [Compiled.byteLength_of_wrapped (by rw [BlockSet.byteLength_quadrupled])]
  rfl

end BlockWriter

end BlockUpdate
