import BlockUpdate.Compiled.Blocks
import BlockUpdate.Proofs.Agreement
import BlockUpdate.Proofs.PieceWrites
import BlockUpdate.Proofs.Plan
import BlockUpdate.Proofs.ValidSets

/-!
# Reading, writing and checking blocks, on words and with numbers

A descriptor is checked range by range, so each offset and each length of a range fits a word, and
so does the end of the range. The sum of the lengths has no check of its own: only the number of
blocks is bounded, and the size in bytes is that number times the size of a block. The checks of
ranges are enough for all but this one product: whatever is done with a set, nothing else can fail
to fit.

- **`Compiled.sized_read?`**, **`Compiled.agrees_write`**, **`Compiled.agrees_zero`**,
  **`Compiled.agrees_receive`**: on a valid set each operation on words is the one on numbers, or
  the size of the set does not fit.
-/

namespace BlockUpdate

open Decimal (limit64)

variable {ε α : Type}

/-! ## Valid sets -/

namespace BlockRange.Valid

variable {r : BlockRange}

theorem end_lt (h : r.Valid) : r.byteStart + r.byteLength < limit64 := by
  have hstop := h.stop_lt
  rw [Nat.add_mul] at hstop
  exact hstop

theorem byteStart_lt (h : r.Valid) : r.byteStart < limit64 := by
  have := h.end_lt
  omega

theorem byteLength_lt (h : r.Valid) : r.byteLength < limit64 := by
  have := h.end_lt
  omega

end BlockRange.Valid

namespace Compiled

open BlockSet (Valid)

variable {b : Build} {O : Prop} {set : BlockSet} {ranges : List BlockRange} {data : Bytes}
  {position : Nat}

@[simp] theorem extent_of_valid {r : BlockRange} (h : r.Valid) :
    (extent b r : Except (Halt ε) (Nat × Nat)) = .ok (r.byteStart, r.byteLength) := by
  rw [extent, size_of_lt h.byteStart_lt, size_of_lt h.byteLength_lt]
  rfl

/-! ## Reading -/

theorem readRanges_eq {room : Nat} (hvalid : ∀ r ∈ ranges, r.Valid)
    (hroom : position + rangesLength ranges ≤ room) (hfits : room < limit64) (d : Device)
    (out : Bytes) :
    (readRanges b d room ranges position out : Except (Halt ε) (Bytes × Bool)) =
      .ok (BlockSet.readRanges d ranges out) := by
  induction ranges generalizing position out with
  | nil => rfl
  | cons r rest ih =>
    obtain ⟨hr, hrest⟩ := List.forall_mem_cons.mp hvalid
    rw [rangesLength_cons] at hroom
    have hnext : position + r.byteLength < limit64 := by omega
    rw [readRanges, extent_of_valid hr, BlockSet.readRanges]
    show (size b (position + r.byteLength) >>= fun next => _) = _
    rw [size_of_lt hnext]
    show (window room position (position + r.byteLength) >>= fun _ => _) = _
    rw [window_of_le (Nat.le_add_right ..) (by omega)]
    show (if _ then _ else _) = _
    split
    · exact ih hrest (by omega) _
    · rfl

/-- The ranges of a set take as much of a buffer as the set has bytes. -/
theorem positions_le (h : set.Valid) : 0 + rangesLength set.ranges ≤ set.byteLength := by
  exact Nat.le_of_eq ((Nat.zero_add _).trans h.sound.byteLength_eq.symm)

/-- **Reading a set.** -/
theorem sized_read? (h : set.Valid) (d : Device) :
    Sized b set.byteLength (read? b set d : Except (Halt ε) (Option Bytes)) (set.read? d) :=
  (sized_size b set.byteLength).bind fun hfits => by
    rw [readRanges_eq h.ranges (positions_le h) hfits, BlockSet.read?]
    rcases BlockSet.readRanges d set.ranges ByteArray.empty with ⟨data, _ | _⟩ <;> rfl

theorem sized_readInto (h : set.Valid) (d : Device) :
    Sized b set.byteLength (readInto b set d : Except (Halt ε) Bytes) (set.readInto d) :=
  (sized_size b set.byteLength).bind fun hfits => by
    rw [readRanges_eq h.ranges (positions_le h) hfits]
    rfl

/-- A digest is checked as it is with numbers, if the size of the blocks fits. -/
theorem verify_eq (P : Primitives) (data : Bytes) {blocks : Nat} (expected : String)
    (h : blocks * blockSize < limit64) :
    verify P data blocks expected = Checksum.verify P data blocks expected := by
  rw [verify, Nat.min_eq_left (by omega)]
  rfl

/-! ## Writing -/

theorem agrees_writeRanges (hvalid : ∀ r ∈ ranges, r.Valid)
    (hroom : position + rangesLength ranges ≤ data.size)
    (hfits : position + rangesLength ranges < limit64) (d : Device) :
    Agrees b O (writeRanges b data ranges position) (BlockSet.writeRanges data ranges position)
      d := by
  induction ranges generalizing position d with
  | nil => exact Agrees.pure _ _
  | cons r rest ih =>
    obtain ⟨hr, hrest⟩ := List.forall_mem_cons.mp hvalid
    rw [rangesLength_cons] at hroom hfits
    refine Agrees.ok_bind (extent_of_valid hr) ?_
    refine Agrees.size_bind (fun h => by omega) fun _ => ?_
    refine Agrees.ok_bind (window_of_le (Nat.le_add_right ..) (by omega)) ?_
    exact (Agrees.step _ _).bind fun _ t _ => ih hrest (by omega) (by omega) t

theorem agrees_write (h : set.Valid) (data : Bytes) (d : Device) :
    Agrees b (limit64 ≤ set.byteLength) (write b set data) (set.write data) d := by
  rcases Nat.lt_or_ge set.byteLength limit64 with hfits | hlarge
  · have hcheck : checkBuffer b set data.size = unchecked (set.checkBuffer data.size) := by
      rw [checkBuffer, byteLength, size_of_lt hfits]
      show (if _ then _ else _) = unchecked (if _ then _ else _)
      split <;> rfl
    have hlength := positions_le h
    rw [write, hcheck, BlockSet.write, BlockSet.checkBuffer]
    split
    · exact Agrees.throw_bind _ d
    · refine Agrees.rename (agrees_writeRanges h.ranges (by omega) (by omega) d) ?_
      exact outcome_deviceMapError _ _ _
  · refine .inr ⟨hlarge, fun hb => ?_⟩
    rw [write, checkBuffer, byteLength, hb, size_of_le hlarge]
    rfl

theorem agrees_zeroFrom {run : Nat} (hrun : 0 < run) {start length : Nat}
    (hfits : start + length < limit64) (done : Nat) (d : Device) :
    Agrees b O (zeroFrom b run start length done) (BlockSet.zeroFrom run hrun start length done)
      d := by
  fun_induction BlockSet.zeroFrom run hrun start length done generalizing d with
  | case1 done hmore n ih =>
    rw [zeroFrom, if_pos hmore, if_pos hrun]
    refine Agrees.size_bind (fun h => by omega) fun _ => ?_
    refine (Agrees.step _ _).bind fun _ t _ => ?_
    exact Agrees.size_bind (fun h => by omega) fun _ => ih t
  | case2 done hend =>
    rw [zeroFrom, if_neg hend]
    exact Agrees.pure _ _

theorem agrees_clearRanges {run : Nat} (hrun : 0 < run) (discarding : Bool)
    (hvalid : ∀ r ∈ ranges, r.Valid) (d : Device) :
    Agrees b O (clearRanges b run discarding ranges)
      (BlockSet.clearRanges run hrun discarding ranges) d := by
  induction ranges generalizing d with
  | nil => exact Agrees.pure _ _
  | cons r rest ih =>
    obtain ⟨hr, hrest⟩ := List.forall_mem_cons.mp hvalid
    have hzeros (t : Device) : Agrees b O
        (zeroFrom b run r.byteStart r.byteLength 0 >>= fun _ => clearRanges b run discarding rest)
        (BlockSet.zeroFrom run hrun r.byteStart r.byteLength 0 >>= fun _ =>
          BlockSet.clearRanges run hrun discarding rest) t :=
      (agrees_zeroFrom hrun hr.end_lt 0 t).bind fun _ u _ => ih hrest u
    rw [clearRanges, BlockSet.clearRanges]
    refine Agrees.ok_bind (extent_of_valid hr) ?_
    cases discarding with
    | false => exact hzeros d
    | true =>
      refine Agrees.bind (Agrees.step _ d) fun discarded t _ => ?_
      cases discarded with
      | false => exact hzeros t
      | true => exact ih hrest t

theorem agrees_zero (h : set.Valid) (isErase allowFileErase : Bool) (d : Device) :
    Agrees b (limit64 ≤ set.byteLength) (zero b set isErase allowFileErase)
      (set.zero isErase allowFileErase) d := by
  refine Agrees.get_bind ?_
  dsimp only
  split
  · exact Agrees.throw_bind _ _
  · refine Agrees.size_bind id fun _ => ?_
    split
    next hrun =>
      refine (agrees_clearRanges hrun _ h.ranges d).rename ?_
      exact outcome_deviceMapError _ _ _
    next hrun =>
      -- a set without blocks has no ranges to clear
      have hranges : set.ranges = [] :=
        Decidable.not_not.mp fun hne => hrun (BlockSet.zeroRun_pos h.sound hne)
      rw [hranges]
      exact Agrees.pure _ d

/-! ## Writers -/

open BlockWriter (Counted Moved)

variable {w : BlockWriter} {s : Writing} {piece : Bytes}

/-- A writer on its way through a set. -/
structure Filling (set : BlockSet) (w : BlockWriter) : Prop where
  counted : w.Counted
  set_eq : w.set = set

theorem Filling.new (hset : set.Valid) (dry : Bool) : Filling set (BlockWriter.new set dry) :=
  ⟨Counted.new hset.sound dry, rfl⟩

theorem Filling.moved {w' : BlockWriter} {n : Nat} (h : Filling set w) (hmoved : Moved w w' n) :
    Filling set w' := ⟨hmoved.counted, hmoved.set_eq.trans h.set_eq⟩

theorem Filling.written_le (h : Filling set w) (hset : set.Valid) : w.written ≤ set.byteLength := by
  have hle := h.counted.written_le (h.set_eq.symm ▸ hset.sound)
  rwa [BlockWriter.expected, h.set_eq] at hle

theorem sized_expected (h : Filling set w) :
    Sized b set.byteLength (byteLength b w.set : Except (Halt ε) Nat) w.expected := by
  rw [BlockWriter.expected, h.set_eq]
  exact sized_size b set.byteLength

theorem sized_isDone (h : Filling set w) :
    Sized b set.byteLength (isDone b w : Except (Halt ε) Bool) w.isDone :=
  (sized_expected h).bind fun _ => rfl

theorem sized_remaining (hset : set.Valid) (h : Filling set w) :
    Sized b set.byteLength (remaining b w : Except (Halt ε) Nat) w.remaining := by
  have hle : w.written ≤ w.expected := by
    rw [BlockWriter.expected, h.set_eq]
    exact h.written_le hset
  exact (sized_expected h).bind fun _ => minus_of_le hle

/-- One part of a piece, without checks. -/
def part (w : BlockWriter) (piece : Bytes) (r : BlockRange) : WritingM OsError Unit :=
  if w.dryRun then pure ()
  else BlockWriter.onDevice (DeviceM.write (r.byteStart + w.rangeOffset) piece)

theorem writer_part (w : BlockWriter) (piece : Bytes) (r : BlockRange) (s : Writing) :
    (outcome (part w piece r) s).2.writer = s.writer := by
  rw [part]
  split <;> rfl

theorem agrees_writePart {r : BlockRange} (hr : r.Valid) (hoffset : w.rangeOffset ≤ r.byteLength)
    (piece : Bytes) (s : Writing) : Agrees b O (writePart b w piece r) (part w piece r) s := by
  have hend := hr.end_lt
  rw [writePart, part]
  split
  · exact Agrees.pure _ _
  · refine Agrees.size_bind (fun h => by omega) fun _ => ?_
    exact Agrees.size_bind (fun h => by omega) fun _ => Agrees.step _ _

/-- A piece is written part by part. -/
theorem outcome_writeRanges_parts {r : BlockRange} {rest : List BlockRange} {consumed : Nat}
    (hmore : ¬ piece.size ≤ consumed) :
    outcome (BlockWriter.writeRanges piece (r :: rest) consumed) s =
      let n := min (r.byteLength - s.writer.rangeOffset) (piece.size - consumed)
      outcome (part s.writer (piece.extract consumed (consumed + n)) r >>= fun _ =>
        modify (fun s : Writing =>
          { s with writer := s.writer.advance n r.byteLength }) >>= fun _ =>
          if n = r.byteLength - s.writer.rangeOffset
          then BlockWriter.writeRanges piece rest (consumed + n)
          else pure (consumed + n)) s := by
  rw [BlockWriter.writeRanges, if_neg hmore, outcome_get_bind]
  simp only [part]
  cases s.writer.dryRun <;> rfl

theorem agrees_writeInto (hset : set.Valid) (hfits : set.byteLength < limit64) (h : Filling set w)
    (hs : s.writer = w) (hranges : set.ranges.drop w.rangeIndex = ranges) (consumed : Nat) :
    Agrees b O (writeInto b piece ranges consumed)
      (BlockWriter.writeRanges piece ranges consumed) s := by
  induction ranges generalizing consumed s w with
  | nil => exact Agrees.pure _ _
  | cons r rest ih =>
    by_cases hend : piece.size ≤ consumed
    · rw [writeInto, BlockWriter.writeRanges, if_pos hend, if_pos hend]
      exact Agrees.pure _ _
    subst hs
    have hahead : s.writer.set.ranges.drop s.writer.rangeIndex = r :: rest := h.set_eq ▸ hranges
    have hr : r.Valid := hset.ranges r (List.mem_of_mem_drop (hranges ▸ List.mem_cons_self))
    have hlength := hr.byteLength_lt
    have hroom := h.counted.room r (by rw [hahead]; rfl)
    rw [writeInto, if_neg hend]
    refine Agrees.of_outcome ?_ (outcome_get_bind _ s) (outcome_writeRanges_parts hend)
    refine Agrees.size_bind (fun h => by omega) fun _ => ?_
    refine Agrees.ok_bind (minus_of_le (Nat.le_of_lt hroom)) ?_
    -- what the range under way takes
    obtain ⟨n, hn⟩ : ∃ n, n = min (r.byteLength - s.writer.rangeOffset) (piece.size - consumed) :=
      ⟨_, rfl⟩
    -- what was written before and with it stays within the set, whose size fits
    have hmoved := h.counted.advance (h.set_eq.symm ▸ hset.sound) hahead
      (by omega : s.writer.rangeOffset + n ≤ r.byteLength)
    have hwritten := (h.moved hmoved).written_le hset
    rw [hmoved.written_eq] at hwritten
    simp only [← hn]
    refine (agrees_writePart hr (Nat.le_of_lt hroom) _ s).bind fun _ t ht => ?_
    have hwriter : t.writer = s.writer := by
      rw [← writer_part s.writer (piece.extract consumed (consumed + n)) r s, ht]
    refine Agrees.size_bind (fun h => by omega) fun _ => ?_
    refine Agrees.size_bind (fun h => by omega) fun _ => ?_
    -- the count on words is the one that moves with the writer
    have hadvance : { t.writer.advance n r.byteLength with written := s.writer.written + n } =
        t.writer.advance n r.byteLength := by
      rw [hwriter, ← hmoved.written_eq]
    refine Agrees.modify_bind (congrArg (Writing.mk · t.device) hadvance) ?_
    have hu : ({ t with writer := t.writer.advance n r.byteLength } : Writing).writer =
        s.writer.advance n r.byteLength := congrArg (·.advance n r.byteLength) hwriter
    split
    next hfull =>
      refine ih (h.moved hmoved) hu ?_ _
      rw [BlockWriter.advance, if_pos (by omega)]
      show set.ranges.drop (s.writer.rangeIndex + 1) = rest
      rw [← List.drop_drop, hranges]
      rfl
    next => exact Agrees.pure _ _

theorem agrees_writePiece (hset : set.Valid) (hfits : set.byteLength < limit64)
    (h : Filling set s.writer) (piece : Bytes) :
    Agrees b O (writePiece b piece) (BlockWriter.write piece) s :=
  Agrees.get_bind (agrees_writeInto hset hfits h rfl (by rw [h.set_eq]) 0)

/-- A piece leaves a writer on its way. -/
theorem Filling.write (hset : set.Valid) (h : Filling set s.writer) (piece : Bytes) :
    Filling set (outcome (BlockWriter.write piece) s).2.writer := by
  obtain ⟨w, hw, hrun⟩ := BlockWriter.outcome_write h.counted (h.set_eq.symm ▸ hset.sound) piece
  rw [hrun]
  exact h.moved hw

theorem agrees_put (hset : set.Valid) (h : Filling set s.writer) (piece : Bytes) :
    Agrees b (limit64 ≤ set.byteLength) (put b piece) (BlockWriter.put piece) s := by
  refine Agrees.get_bind (Agrees.sized_bind (sized_remaining hset h) id fun hfits => ?_)
  refine Agrees.ite (fun _ => Agrees.throw_bind _ _) fun _ => ?_
  have hwrite : Agrees b (limit64 ≤ set.byteLength) (rename .os (writePiece b piece))
      (BlockWriter.mapError PatchError.os (BlockWriter.write piece)) s :=
    (agrees_writePiece hset hfits h piece).rename (outcome_writerMapError _ _ _)
  exact hwrite.bind fun _ t _ => Agrees.pure _ t

theorem Filling.put (hset : set.Valid) (h : Filling set s.writer) (piece : Bytes) :
    Filling set (outcome (BlockWriter.put piece) s).2.writer := by
  by_cases hlong : s.writer.remaining < piece.size
  · rwa [BlockWriter.outcome_put_of_lt hlong]
  · rw [BlockWriter.outcome_put_of_le (Nat.le_of_not_lt hlong)]
    exact h.write hset piece

/-- Pieces that are put one after the other, without checks. -/
def puts (pieces : List Bytes) : WritingM PatchError Unit :=
  ExceptT.mk (Emission.deliverPieces (fun s piece => outcome (BlockWriter.put piece) s) pieces)

theorem outcome_puts_cons (rest : List Bytes) :
    outcome (puts (piece :: rest)) s =
      outcome (BlockWriter.put piece >>= fun _ => puts rest) s := by
  rw [outcome_bind, puts, outcome_mk, Emission.deliverPieces]
  rcases outcome (BlockWriter.put piece) s with ⟨_ | _, _⟩ <;> rfl

/-- Pieces leave a writer on its way. -/
theorem Filling.putAll (hset : set.Valid) (h : Filling set s.writer) (pieces : List Bytes) :
    Filling set (outcome (puts pieces) s).2.writer := by
  induction pieces generalizing s with
  | nil => exact h
  | cons piece rest ih =>
    have hput := h.put hset piece
    rw [outcome_puts_cons, outcome_bind]
    rcases hrun : outcome (BlockWriter.put piece) s with ⟨_ | _, t⟩ <;> rw [hrun] at hput
    · exact hput
    · exact ih hput

/-- **Pieces** are put one after the other. -/
theorem agrees_putAll (hset : set.Valid) (h : Filling set s.writer) (pieces : List Bytes) :
    Agrees b (limit64 ≤ set.byteLength) (putAll b pieces) (puts pieces) s := by
  induction pieces generalizing s with
  | nil => exact Agrees.pure _ s
  | cons piece rest ih =>
    have hput := h.put hset piece
    refine Agrees.of_outcome ?_ rfl (outcome_puts_cons rest)
    refine (agrees_put hset h piece).bind fun _ t ht => ?_
    rw [ht] at hput
    exact ih hput

theorem agrees_finish (h : Filling set s.writer) :
    Agrees b (limit64 ≤ set.byteLength) (finish b) BlockWriter.finish s := by
  refine Agrees.get_bind (Agrees.sized_bind (sized_isDone h) id fun _ => ?_)
  refine Agrees.ite (fun _ => ?_) fun _ => ?_
  · exact Agrees.sized_bind (sized_expected h) id fun _ => Agrees.throw_bind _ _
  · refine Agrees.ite (fun _ => ?_) fun _ => Agrees.pure _ s
    exact (Agrees.step _ s).bind fun _ t _ => Agrees.pure _ t

/-- An emission is received piece by piece, and then it ends as it does. -/
theorem outcome_receive_puts (e : Emission α) (s : Writing) :
    outcome (BlockWriter.receive e) s =
      outcome (puts e.pieces >>= fun _ => ExceptT.mk fun s => (e.outcome, s)) s := by
  have hdeliver : outcome (BlockWriter.receive e) s =
      e.deliver (fun s piece => outcome (BlockWriter.put piece) s) s := rfl
  rw [hdeliver, Emission.deliver, outcome_bind, puts, outcome_mk]
  rcases Emission.deliverPieces (fun s piece => outcome (BlockWriter.put piece) s) e.pieces s with
    ⟨_ | _, _⟩ <;> rfl

theorem Filling.receive (hset : set.Valid) (h : Filling set s.writer) (e : Emission α) :
    Filling set (outcome (BlockWriter.receive e) s).2.writer := by
  have hputs := h.putAll hset e.pieces
  rw [outcome_receive_puts, outcome_bind]
  rcases hrun : outcome (puts e.pieces) s with ⟨_ | _, t⟩ <;> rw [hrun] at hputs <;> exact hputs

theorem agrees_receiveAll (hset : set.Valid) (h : Filling set s.writer) (e : Emission α) :
    Agrees b (limit64 ≤ set.byteLength)
      (do let _ ← rename .patch (receiveAll b e)
          finish b)
      (do let _ ← BlockWriter.mapError BlockError.patch (BlockWriter.receive e)
          BlockWriter.finish) s := by
  have hreceive : Agrees b (limit64 ≤ set.byteLength) (receiveAll b e) (BlockWriter.receive e) s :=
    ((agrees_putAll hset h e.pieces).bind fun _ t _ =>
      Agrees.step (ExceptT.mk fun s => (e.outcome, s)) t).of_outcome rfl (outcome_receive_puts e _)
  refine Agrees.bind (hreceive.rename (outcome_writerMapError _ _ _)) fun _ t ht => ?_
  have hstate : (outcome (BlockWriter.receive e) s).2 = t := by
    have hmapped := congrArg Prod.snd
      (outcome_writerMapError BlockError.patch (BlockWriter.receive e) s)
    rw [ht] at hmapped
    exact hmapped.symm
  exact agrees_finish (hstate ▸ h.receive hset e)

/-- **A patch is applied to a set.** -/
theorem agrees_receive (hset : set.Valid) (e : Emission α) (d : Device) :
    Agrees b (limit64 ≤ set.byteLength) (receive b set e) (set.receive e) d := by
  have hid (r : Except BlockError Nat) : r = r.mapError id := by cases r <;> rfl
  exact (agrees_receiveAll hset (Filling.new hset false) e).onPart (Prod.ext (hid _) rfl)

/-! ## Sets that are too large -/

/-- In a build that goes on with the lowest bits, a size that is a multiple of `2 ^ 64` is
nothing. -/
theorem byteLength_of_wrapped (h : set.byteLength % 2 ^ 64 = 0) :
    (byteLength .wrapping set : Except (Halt ε) Nat) = .ok 0 := by
  rw [byteLength, size]
  split
  next hfits => rw [← Nat.mod_eq_of_lt hfits, limit64, h]
  next => exact congrArg Except.ok h

end Compiled

namespace BlockSet

/-- A quarter of the byte offsets that fit a word, four times. -/
def quadrupled : BlockSet := ⟨List.replicate 4 ⟨0, 2 ^ 50⟩, 2 ^ 52⟩

def quadrupledText : String :=
  "4,1125899906842624,0,1125899906842624,0,1125899906842624,0,1125899906842624,0"

/-- **There is a descriptor of a set whose size does not fit a word**, by one. -/
theorem parse_quadrupled : parse quadrupledText = .ok quadrupled := by rfl

theorem byteLength_quadrupled : quadrupled.byteLength = 2 ^ 64 := by decide

end BlockSet

end BlockUpdate
