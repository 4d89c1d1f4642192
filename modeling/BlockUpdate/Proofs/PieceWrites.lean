import BlockUpdate.Proofs.ByteStrings
import BlockUpdate.Proofs.Plan

/-!
# The writes of a piece

A writer is called with pieces whose bounds have nothing to do with those of its ranges. A piece is
cut into writes at the ends of the ranges ahead, and the writer counts the bytes of those that
succeed, up to the first that fails. Whatever becomes of a call, its count agrees with its position.

- `Device.attemptAll`: writes in order, up to the first that fails, and the bytes before that one.
- `BlockSet.placing`: the writes that lay data on ranges in order, as far as it goes.
- **`overwrite_placing_append`**: data that goes on where other data ended.
- `BlockWriter.Counted`: a count that agrees with the position in the set.
- **`outcome_writeRanges`**, **`outcome_write`**: a call performs the writes of its piece.
- `outcome_put_of_le`, **`outcome_put_of_lt`**: a piece that must be taken whole.
-/

namespace BlockUpdate

/-! ## Writes in order -/

namespace Bytes

/-- A write in two parts. -/
theorem after_append (image : Bytes) (start : Nat) (a b : Bytes) :
    image.after ⟨start, a ++ b⟩ = (image.after ⟨start, a⟩).after ⟨start + a.size, b⟩ := by
  by_cases ha : a.size = 0
  · obtain rfl : a = ByteArray.empty := ByteArray.size_eq_zero_iff.mp ha
    simp [after]
  · by_cases hb : b.size = 0
    · obtain rfl : b = ByteArray.empty := ByteArray.size_eq_zero_iff.mp hb
      simp [after]
    · have hab : (a ++ b).size ≠ 0 := by
        rw [ByteArray.size_append]
        omega
      simp only [after, ha, hb, hab, if_false, writeAt_writeAt]

end Bytes

namespace Device

variable {dry : Bool} {d d' : Device} {start : Nat} {data : Bytes}

/-- **A write that succeeds** is at a valid offset, and its data is in place. -/
theorem write_eq_ok (hdata : 0 < data.size) :
    d.write start data = (.ok (), d') ↔
      start < offsetLimit ∧ d.faults.write d.writes = none ∧ d' = d.after [⟨start, data⟩] := by
  rw [write, if_neg (by omega)]
  by_cases hstart : offsetLimit ≤ start
  · rw [if_pos hstart]
    refine ⟨fun h => ?_, fun h => absurd h.1 (by omega)⟩
    cases h
  · rw [if_neg hstart]
    cases d.faults.write d.writes with
    | some fault =>
      refine ⟨fun h => ?_, fun h => ?_⟩
      · cases h
      · cases h.2.1
    | none =>
      have hafter : d.after [⟨start, data⟩] =
          { d with image := d.image.writeAt start data, writes := d.writes + 1 } := by
        rw [after, Bytes.overwrite, Bytes.overwrite, Bytes.after,
          if_neg (by show ¬ data.size = 0; omega)]
        rfl
      rw [hafter]
      exact ⟨fun h => ⟨by omega, rfl, (congrArg Prod.snd h).symm⟩, fun h => by rw [h.2.2]⟩

/-- Performs a write; a dry run takes it for done. -/
def attempt (dry : Bool) (d : Device) (w : Write) : Except OsError Unit × Device :=
  if dry then (.ok (), d) else d.write w.offset w.data

/-- Performs writes in order up to the first that fails; gives the number of bytes before it too. -/
def attemptAll (dry : Bool) (d : Device) : List Write → Nat × Except OsError Unit × Device
  | [] => (0, .ok (), d)
  | w :: ws =>
    match d.attempt dry w with
    | (.ok (), d') => (w.data.size + (d'.attemptAll dry ws).1, (d'.attemptAll dry ws).2)
    | (.error e, d') => (0, .error e, d')

theorem attempt_of_empty {w : Write} (h : w.data.size = 0) : d.attempt dry w = (.ok (), d) := by
  rw [attempt, write, if_pos h, ite_self]

theorem attemptAll_cons_of_ok {w : Write} {ws : List Write} {d' : Device}
    (h : d.attempt dry w = (.ok (), d')) :
    d.attemptAll dry (w :: ws) =
      (w.data.size + (d'.attemptAll dry ws).1, (d'.attemptAll dry ws).2) := by
  rw [attemptAll, h]

/-- Without a failure all bytes are counted. -/
theorem attemptAll_of_ok {ws : List Write} (h : (d.attemptAll dry ws).2.1 = .ok ()) :
    (d.attemptAll dry ws).1 = (ws.map (·.data.size)).sum := by
  induction ws generalizing d with
  | nil => rfl
  | cons w ws ih =>
    rcases hfirst : d.attempt dry w with ⟨e | ⟨⟩, d'⟩
    · rw [attemptAll, hfirst] at h
      cases h
    · rw [attemptAll_cons_of_ok hfirst] at h ⊢
      rw [ih h, List.map_cons, List.sum_cons]

/-- A dry run leaves the device alone, and nothing fails. -/
theorem attemptAll_dryRun (d : Device) (ws : List Write) :
    d.attemptAll true ws = ((ws.map (·.data.size)).sum, .ok (), d) := by
  induction ws with
  | nil => rfl
  | cons w ws ih =>
    rw [attemptAll_cons_of_ok (rfl : d.attempt true w = (.ok (), d)), ih, List.map_cons,
      List.sum_cons]

/-- Writes at valid offsets succeed on a device whose writes do. -/
theorem attemptAll_live (hwrites : ∀ k, d.faults.write k = none) {ws : List Write}
    (hlimit : ∀ w ∈ ws, 0 < w.data.size → w.offset < offsetLimit) :
    ∃ d', d.attemptAll false ws = ((ws.map (·.data.size)).sum, .ok (), d') ∧
      d'.image = d.image.overwrite ws ∧ d'.faults = d.faults := by
  induction ws generalizing d with
  | nil => exact ⟨d, rfl, rfl, rfl⟩
  | cons w ws ih =>
    have hfirst : ∃ d₁, d.attempt false w = (.ok (), d₁) ∧ d₁.image = d.image.after w ∧
        d₁.faults = d.faults := by
      by_cases hempty : w.data.size = 0
      · exact ⟨d, attempt_of_empty hempty, (if_pos hempty).symm, rfl⟩
      · have hstart := hlimit w List.mem_cons_self (by omega)
        exact ⟨_, (write_eq_ok (by omega)).mpr ⟨hstart, hwrites _, rfl⟩, rfl, rfl⟩
    obtain ⟨d₁, hrun, himage, hfaults⟩ := hfirst
    obtain ⟨d', hrest, himage', hfaults'⟩ := ih (d := d₁) (by rwa [hfaults])
      fun v hv => hlimit v (List.mem_cons_of_mem w hv)
    refine ⟨d', ?_, ?_, hfaults'.trans hfaults⟩
    · rw [attemptAll_cons_of_ok hrun, hrest, List.map_cons, List.sum_cons]
    · rw [himage', himage, Bytes.overwrite]

/-- A write without a valid offset fails after the one before it. -/
theorem attemptAll_of_invalid {first second : Write} (hwrites : d.faults.write d.writes = none)
    (hfirst : 0 < first.data.size) (hstart : first.offset < offsetLimit)
    (hsecond : 0 < second.data.size) (hinvalid : offsetLimit ≤ second.offset) :
    d.attemptAll false [first, second] =
      (first.data.size, .error (.errno Errno.invalid), d.after [first]) := by
  have hok : d.attempt false first = (.ok (), d.after [first]) :=
    (write_eq_ok hfirst).mpr ⟨hstart, hwrites, rfl⟩
  have hfailed : (d.after [first]).attempt false second =
      (.error (.errno Errno.invalid), d.after [first]) := by
    show (d.after [first]).write second.offset second.data = _
    rw [write, if_neg (Nat.ne_of_gt hsecond), if_pos hinvalid]
  rw [attemptAll_cons_of_ok hok, attemptAll, hfailed]
  rfl

end Device

/-! ## Data laid on ranges -/

theorem rangesLength_append (rs rs' : List BlockRange) :
    rangesLength (rs ++ rs') = rangesLength rs + rangesLength rs' := by
  rw [rangesLength, List.map_append, List.sum_append]
  rfl

/-- The bytes of a set are those of its first ranges and of the others. -/
theorem BlockSet.Sound.rangesLength_take_add_drop {set : BlockSet} (hset : set.Sound)
    (index : Nat) :
    rangesLength (set.ranges.take index) + rangesLength (set.ranges.drop index) =
      set.byteLength := by
  rw [← rangesLength_append, List.take_append_drop, hset.byteLength_eq]

namespace BlockSet

/-- The writes that lay data on some ranges, from an offset in the first one on. -/
def placing : List BlockRange → Nat → Bytes → List Write
  | [], _, _ => []
  | r :: rest, offset, data =>
    ⟨r.byteStart + offset, data.takeFirst (r.byteLength - offset)⟩ ::
      placing rest 0 (data.dropFirst (r.byteLength - offset))

variable {r : BlockRange} {rest ranges : List BlockRange} {offset : Nat} {image piece data : Bytes}

/-- Without data there is nothing to lay down. -/
theorem overwrite_placing_empty (ranges : List BlockRange) (offset : Nat) (image : Bytes) :
    image.overwrite (placing ranges offset ByteArray.empty) = image := by
  induction ranges generalizing offset with
  | nil => rfl
  | cons r rest ih =>
    have htake : Bytes.takeFirst ByteArray.empty (r.byteLength - offset) = ByteArray.empty :=
      Bytes.takeFirst_of_size_le (Nat.zero_le _)
    rw [placing, Bytes.overwrite, htake, Bytes.dropFirst_of_size_le (Nat.zero_le _)]
    exact ih 0

/-- A piece that ends within the first range. -/
theorem overwrite_placing_of_lt (h : offset + piece.size < r.byteLength) :
    image.overwrite (placing (r :: rest) offset (piece ++ data)) =
      (image.after ⟨r.byteStart + offset, piece⟩).overwrite
        (placing (r :: rest) (offset + piece.size) data) := by
  have hroom : r.byteLength - (offset + piece.size) = r.byteLength - offset - piece.size := by
    omega
  rw [placing, placing, Bytes.overwrite, Bytes.overwrite, hroom,
    Bytes.dropFirst_append_of_le (by omega), Bytes.takeFirst_append_of_le (by omega),
    Bytes.after_append, Nat.add_assoc]

/-- A piece that ends with the first range. -/
theorem overwrite_placing_of_eq (h : offset + piece.size = r.byteLength) :
    image.overwrite (placing (r :: rest) offset (piece ++ data)) =
      (image.after ⟨r.byteStart + offset, piece⟩).overwrite (placing rest 0 data) := by
  have hroom : r.byteLength - offset = piece.size := by omega
  rw [placing, Bytes.overwrite, hroom, Bytes.dropFirst_append, Bytes.takeFirst_append]

/-- Nothing is written where there is no data. -/
theorem attemptAll_placing_empty (dry : Bool) (d : Device) (ranges : List BlockRange)
    (offset : Nat) : d.attemptAll dry (placing ranges offset ByteArray.empty) = (0, .ok (), d) := by
  induction ranges generalizing offset with
  | nil => rfl
  | cons r rest ih =>
    have hnone : (Bytes.takeFirst ByteArray.empty (r.byteLength - offset)).size = 0 := by simp
    rw [placing, Device.attemptAll_cons_of_ok (Device.attempt_of_empty hnone), hnone,
      Bytes.dropFirst_of_size_le (Nat.zero_le _), ih, Nat.zero_add]

/-- The range under way takes what it has room for, of what there is. -/
theorem placing_cons {n : Nat} (hn : n = min (r.byteLength - offset) data.size) :
    placing (r :: rest) offset data =
      ⟨r.byteStart + offset, data.takeFirst n⟩ :: placing rest 0 (data.dropFirst n) := by
  rw [placing]
  by_cases hfull : n = r.byteLength - offset
  · rw [hfull]
  · rw [Bytes.takeFirst_of_size_le (by omega), Bytes.takeFirst_of_size_le (by omega),
      Bytes.dropFirst_of_size_le (by omega), Bytes.dropFirst_of_size_le (by omega)]

/-- Data is cut at the ends of the ranges, and what is behind the last one is left out. -/
theorem sum_placing (hoffset : ∀ r ∈ ranges.head?, offset ≤ r.byteLength) (data : Bytes) :
    ((placing ranges offset data).map (·.data.size)).sum =
      min data.size (rangesLength ranges - offset) := by
  induction ranges generalizing offset data with
  | nil =>
    rw [rangesLength_nil, Nat.zero_sub, Nat.min_zero]
    rfl
  | cons r rest ih =>
    have hfirst : offset ≤ r.byteLength := hoffset r rfl
    rw [placing, List.map_cons, List.sum_cons, ih fun _ _ => Nat.zero_le _, Bytes.size_takeFirst,
      Bytes.size_dropFirst, rangesLength_cons]
    omega

/-- What does not fit on the ranges is not laid. -/
theorem placing_takeFirst (hoffset : ∀ r ∈ ranges.head?, offset ≤ r.byteLength) (data : Bytes) :
    placing ranges offset (data.takeFirst (rangesLength ranges - offset)) =
      placing ranges offset data := by
  induction ranges generalizing offset data with
  | nil => rfl
  | cons r rest ih =>
    have hfirst : offset ≤ r.byteLength := hoffset r rfl
    have hroom : rangesLength (r :: rest) - offset = r.byteLength - offset + rangesLength rest := by
      rw [rangesLength_cons]
      omega
    have hrest := @ih 0 (fun _ _ => Nat.zero_le _) (data.dropFirst (r.byteLength - offset))
    rw [placing, placing, hroom, Bytes.takeFirst_takeFirst_add, Bytes.dropFirst_takeFirst_add,
      ← hrest, Nat.sub_zero]

/-- Data is written at the offsets of its ranges. -/
theorem offset_lt_of_mem_placing {limit : Nat}
    (hlimit : ∀ r ∈ ranges, r.byteStart + r.byteLength ≤ limit) {w : Write}
    (hw : w ∈ placing ranges offset data) (hdata : 0 < w.data.size) : w.offset < limit := by
  induction ranges generalizing offset data with
  | nil => cases hw
  | cons r rest ih =>
    rcases List.mem_cons.mp hw with rfl | hw
    · have hr := hlimit r List.mem_cons_self
      rw [Bytes.size_takeFirst] at hdata
      show r.byteStart + offset < limit
      omega
    · exact ih (fun q hq => hlimit q (List.mem_cons_of_mem r hq)) hw

/-- **Data that goes on where other data ended**: that one filled the first `index` ranges, and
`offset` bytes of the next. -/
theorem overwrite_placing_append {index : Nat} {front : Bytes}
    (hfront : front.size = rangesLength (ranges.take index) + offset)
    (hroom : ∀ r ∈ (ranges.drop index).head?, offset < r.byteLength) :
    image.overwrite (placing ranges 0 (front ++ data)) =
      (image.overwrite (placing ranges 0 front)).overwrite
        (placing (ranges.drop index) offset data) := by
  induction ranges generalizing index front image with
  | nil =>
    rw [List.drop_nil]
    rfl
  | cons r rest ih =>
    cases index with
    | zero =>
      -- the first range is still under way
      have hsize : front.size = offset := by simpa using hfront
      have hlt : 0 + front.size < r.byteLength := by
        have := hroom r rfl
        omega
      have halone : image.overwrite (placing (r :: rest) 0 front) =
          image.after ⟨r.byteStart + 0, front⟩ := by
        have halone : image.overwrite (placing (r :: rest) 0 (front ++ ByteArray.empty)) = _ :=
          overwrite_placing_of_lt hlt
        rwa [ByteArray.append_empty, overwrite_placing_empty] at halone
      rw [halone, overwrite_placing_of_lt hlt, Nat.zero_add, hsize]
      rfl
    | succ index =>
      rw [List.take_succ_cons, rangesLength_cons] at hfront
      have hle : r.byteLength ≤ front.size := by omega
      have hsplit : front ++ data = front.takeFirst r.byteLength ++
          (front.dropFirst r.byteLength ++ data) := by
        rw [← ByteArray.append_assoc, Bytes.takeFirst_append_dropFirst]
      have hpiece : 0 + (front.takeFirst r.byteLength).size = r.byteLength := by
        rw [Bytes.size_takeFirst]
        omega
      have halone : image.overwrite (placing (r :: rest) 0
          (front.takeFirst r.byteLength ++ front.dropFirst r.byteLength)) = _ :=
        overwrite_placing_of_eq hpiece
      rw [Bytes.takeFirst_append_dropFirst] at halone
      rw [halone, hsplit, overwrite_placing_of_eq hpiece, @ih _ index _ ?_ hroom]
      · rfl
      · rw [Bytes.size_dropFirst]
        omega

end BlockSet

open BlockSet (placing)

/-! ## The position of a writer -/

namespace BlockWriter

/-- The ranges before the one under way are full, that one is not, and the count is that of the
bytes in all of them. -/
structure Counted (w : BlockWriter) : Prop where
  room : ∀ r ∈ (w.set.ranges.drop w.rangeIndex).head?, w.rangeOffset < r.byteLength
  atEnd : w.set.ranges.drop w.rangeIndex = [] → w.rangeOffset = 0
  written_eq : w.written = rangesLength (w.set.ranges.take w.rangeIndex) + w.rangeOffset

/-- A writer that counted `n` bytes more. -/
structure Moved (w w' : BlockWriter) (n : Nat) : Prop where
  counted : w'.Counted
  index_le : w.rangeIndex ≤ w.set.ranges.length → w'.rangeIndex ≤ w.set.ranges.length
  set_eq : w'.set = w.set
  dryRun_eq : w'.dryRun = w.dryRun
  written_eq : w'.written = w.written + n

theorem Moved.trans {w₁ w₂ w₃ : BlockWriter} {m n : Nat} (h : Moved w₁ w₂ m) (h' : Moved w₂ w₃ n) :
    Moved w₁ w₃ (m + n) where
  counted := h'.counted
  index_le hindex := h.set_eq ▸ h'.index_le (h.set_eq.symm ▸ h.index_le hindex)
  set_eq := h'.set_eq.trans h.set_eq
  dryRun_eq := h'.dryRun_eq.trans h.dryRun_eq
  written_eq := by rw [h'.written_eq, h.written_eq, Nat.add_assoc]

theorem Moved.remaining_eq {w w' : BlockWriter} {n : Nat} (h : Moved w w' n) :
    w'.remaining = w.remaining - n := by
  rw [remaining, expected, h.set_eq, h.written_eq, ← Nat.sub_sub]
  rfl

namespace Counted

variable {w : BlockWriter}

theorem refl (h : w.Counted) : Moved w w 0 := ⟨h, id, rfl, rfl, rfl⟩

theorem new {set : BlockSet} (hset : set.Sound) (dry : Bool) :
    (BlockWriter.new set dry).Counted where
  room r hr := BlockRange.byteLength_pos (hset.nonempty r (List.mem_of_mem_head? hr))
  atEnd _ := rfl
  written_eq := rfl

/-- The ranges ahead have room for what was not written. -/
theorem rest_eq (h : w.Counted) (hset : w.set.Sound) :
    rangesLength (w.set.ranges.drop w.rangeIndex) - w.rangeOffset = w.remaining := by
  rw [remaining, expected, h.written_eq, ← hset.rangesLength_take_add_drop w.rangeIndex]
  omega

theorem offset_le (h : w.Counted) :
    w.rangeOffset ≤ rangesLength (w.set.ranges.drop w.rangeIndex) := by
  rcases hranges : w.set.ranges.drop w.rangeIndex with _ | ⟨r, rest⟩
  · rw [h.atEnd hranges]
    exact Nat.zero_le _
  · have hroom := h.room r (by rw [hranges]; rfl)
    rw [rangesLength_cons]
    omega

/-- **A writer never counts more than its set.** -/
theorem written_le (h : w.Counted) (hset : w.set.Sound) : w.written ≤ w.expected := by
  have hoffset := h.offset_le
  rw [expected, h.written_eq, ← hset.rangesLength_take_add_drop w.rangeIndex]
  omega

theorem index_lt {r : BlockRange} {rest : List BlockRange}
    (hranges : w.set.ranges.drop w.rangeIndex = r :: rest) :
    w.rangeIndex < w.set.ranges.length := by
  refine Nat.lt_of_not_le fun hge => ?_
  rw [List.drop_eq_nil_of_le hge] at hranges
  cases hranges

/-- **A writer is done exactly if all ranges are full.** -/
theorem isDone_iff (h : w.Counted) (hset : w.set.Sound)
    (hindex : w.rangeIndex ≤ w.set.ranges.length) :
    w.isDone = true ↔ w.rangeIndex = w.set.ranges.length := by
  have hrest := h.rest_eq hset
  have hle := h.written_le hset
  rw [isDone, beq_iff_eq]
  rcases hranges : w.set.ranges.drop w.rangeIndex with _ | ⟨r, rest⟩
  · rw [hranges, rangesLength_nil, remaining] at hrest
    have := List.drop_eq_nil_iff.mp hranges
    constructor <;> intro <;> omega
  · have hroom := h.room r (by rw [hranges]; rfl)
    rw [hranges, rangesLength_cons, remaining] at hrest
    have hlt := index_lt hranges
    constructor <;> intro <;> omega

/-- **One write** moves a writer on within the range under way, or to the next one. -/
theorem advance (h : w.Counted) (hset : w.set.Sound) {r : BlockRange} {rest : List BlockRange}
    (hranges : w.set.ranges.drop w.rangeIndex = r :: rest) {n : Nat}
    (hn : w.rangeOffset + n ≤ r.byteLength) : Moved w (w.advance n r.byteLength) n := by
  have hlt := index_lt hranges
  by_cases hfull : w.rangeOffset + n = r.byteLength
  · have hget : w.set.ranges[w.rangeIndex]? = some r := by
      rw [← List.head?_drop, hranges]
      rfl
    have htake : rangesLength (w.set.ranges.take (w.rangeIndex + 1)) =
        rangesLength (w.set.ranges.take w.rangeIndex) + r.byteLength := by
      rw [List.take_add_one, hget, rangesLength_append, Option.toList_some, rangesLength_cons,
        rangesLength_nil, Nat.add_zero]
    rw [BlockWriter.advance, if_pos hfull]
    refine ⟨⟨fun q hq => ?_, fun _ => rfl, ?_⟩, fun _ => hlt, rfl, rfl, rfl⟩
    · have hmem : q ∈ w.set.ranges := List.mem_of_mem_drop (List.mem_of_mem_head? hq)
      exact BlockRange.byteLength_pos (hset.nonempty q hmem)
    · show w.written + n = rangesLength (w.set.ranges.take (w.rangeIndex + 1)) + 0
      rw [htake, h.written_eq]
      omega
  · rw [BlockWriter.advance, if_neg hfull]
    refine ⟨⟨fun q hq => ?_, fun hnil => ?_, ?_⟩, id, rfl, rfl, rfl⟩
    · have hq : q ∈ (w.set.ranges.drop w.rangeIndex).head? := hq
      rw [hranges] at hq
      obtain rfl : r = q := Option.mem_some.mp hq
      show w.rangeOffset + n < r.byteLength
      omega
    · cases hranges.symm.trans hnil
    · show w.written + n = rangesLength (w.set.ranges.take w.rangeIndex) + (w.rangeOffset + n)
      rw [h.written_eq]
      omega

end Counted

/-! ## One call -/

/-- **One step of a write**: the range under way takes its part of the piece. -/
theorem outcome_writeRanges_cons {data : Bytes} {r : BlockRange} {rest : List BlockRange}
    {consumed n : Nat} {s : Writing} (hmore : consumed < data.size)
    (hn : n = min (r.byteLength - s.writer.rangeOffset) (data.size - consumed)) :
    outcome (writeRanges data (r :: rest) consumed) s =
      match s.device.attempt s.writer.dryRun
        ⟨r.byteStart + s.writer.rangeOffset, data.extract consumed (consumed + n)⟩ with
      | (.ok (), d) => outcome (if n = r.byteLength - s.writer.rangeOffset
          then writeRanges data rest (consumed + n) else pure (consumed + n))
          ⟨s.writer.advance n r.byteLength, d⟩
      | (.error e, d) => (.error e, ⟨s.writer, d⟩) := by
  rw [writeRanges, if_neg (Nat.not_le.mpr hmore), outcome_get_bind]
  simp only [← hn]
  cases hdry : s.writer.dryRun with
  | true => exact outcome_bind_of_ok (outcome_modify _ _) _
  | false =>
    have hrun := outcome_writerOnDevice (DeviceM.write (r.byteStart + s.writer.rangeOffset)
      (data.extract consumed (consumed + n))) s
    show outcome (onDevice (DeviceM.write (r.byteStart + s.writer.rangeOffset)
      (data.extract consumed (consumed + n))) >>= _) s = _
    rw [outcome_bind, hrun]
    show _ = match s.device.write _ _ with
      | (.ok (), d) => _
      | (.error e, d) => _
    rcases hwrite : s.device.write (r.byteStart + s.writer.rangeOffset)
      (data.extract consumed (consumed + n)) with ⟨e | ⟨⟩, d⟩
    · have hrun : outcome (DeviceM.write (r.byteStart + s.writer.rangeOffset)
        (data.extract consumed (consumed + n))) s.device = (.error e, d) := hwrite
      rw [hrun]
    · have hrun : outcome (DeviceM.write (r.byteStart + s.writer.rangeOffset)
        (data.extract consumed (consumed + n))) s.device = (.ok (), d) := hwrite
      rw [hrun]
      exact outcome_bind_of_ok (outcome_modify _ _) _

/-- **A piece is cut into writes** by the ranges ahead, and the writer counts those up to the first
that fails. -/
theorem outcome_writeRanges {data : Bytes} {ranges : List BlockRange} {consumed : Nat} {s : Writing}
    (h : s.writer.Counted) (hset : s.writer.set.Sound)
    (hranges : s.writer.set.ranges.drop s.writer.rangeIndex = ranges)
    (hconsumed : consumed ≤ data.size) :
    let a := s.device.attemptAll s.writer.dryRun
      (placing ranges s.writer.rangeOffset (data.dropFirst consumed))
    ∃ w, Moved s.writer w a.1 ∧
      outcome (writeRanges data ranges consumed) s =
        (a.2.1.map fun _ => consumed + a.1, ⟨w, a.2.2⟩) := by
  intro a
  induction ranges generalizing consumed s with
  | nil => exact ⟨s.writer, h.refl, rfl⟩
  | cons r rest ih =>
    by_cases hend : data.size ≤ consumed
    · have hnone : a = (0, .ok (), s.device) := by
        show s.device.attemptAll _ (placing _ _ (data.dropFirst consumed)) = _
        rw [Bytes.dropFirst_of_size_le hend, BlockSet.attemptAll_placing_empty]
      refine ⟨s.writer, ?_, ?_⟩
      · rw [hnone]
        exact h.refl
      · rw [hnone, writeRanges, if_pos hend]
        rfl
    have hroom := h.room r (by rw [hranges]; rfl)
    -- what the range under way takes
    obtain ⟨n, hn⟩ : ∃ n, n = min (r.byteLength - s.writer.rangeOffset) (data.size - consumed) :=
      ⟨_, rfl⟩
    have hpiece : (data.extract consumed (consumed + n)).size = n := by
      rw [ByteArray.size_extract]
      omega
    have hcut : placing (r :: rest) s.writer.rangeOffset (data.dropFirst consumed) =
        ⟨r.byteStart + s.writer.rangeOffset, data.extract consumed (consumed + n)⟩ ::
          placing rest 0 (data.dropFirst (consumed + n)) := by
      rw [BlockSet.placing_cons (n := n) (by rw [Bytes.size_dropFirst, hn]),
        Bytes.takeFirst_dropFirst, Bytes.dropFirst_dropFirst]
    have hmoved := h.advance hset hranges (by omega : s.writer.rangeOffset + n ≤ r.byteLength)
    rw [outcome_writeRanges_cons (Nat.lt_of_not_le hend) hn]
    rcases hfirst : s.device.attempt s.writer.dryRun
      ⟨r.byteStart + s.writer.rangeOffset, data.extract consumed (consumed + n)⟩ with ⟨e | ⟨⟩, d⟩
    · have ha : a = (0, .error e, d) := by
        show s.device.attemptAll _ (placing _ _ (data.dropFirst consumed)) = _
        rw [hcut, Device.attemptAll, hfirst]
      rw [ha]
      exact ⟨s.writer, h.refl, rfl⟩
    · have ha : a = (n + (d.attemptAll s.writer.dryRun
            (placing rest 0 (data.dropFirst (consumed + n)))).1,
          (d.attemptAll s.writer.dryRun (placing rest 0 (data.dropFirst (consumed + n)))).2) := by
        show s.device.attemptAll _ (placing _ _ (data.dropFirst consumed)) = _
        rw [hcut, Device.attemptAll_cons_of_ok hfirst, hpiece]
      rw [ha]
      by_cases hfull : n = r.byteLength - s.writer.rangeOffset
      · -- the writer goes on at the start of the next range
        have hadvance : s.writer.advance n r.byteLength =
            { s.writer with
              rangeIndex := s.writer.rangeIndex + 1, rangeOffset := 0,
              written := s.writer.written + n } := by
          rw [BlockWriter.advance, if_pos (by omega)]
        have hdrop : s.writer.set.ranges.drop (s.writer.rangeIndex + 1) = rest := by
          rw [← List.drop_drop, hranges]
          rfl
        obtain ⟨w, hw, hrun⟩ := @ih (consumed + n) ⟨s.writer.advance n r.byteLength, d⟩
          hmoved.counted (by rw [hmoved.set_eq]; exact hset) (by rw [hadvance]; exact hdrop)
          (by omega)
        simp only [hmoved.dryRun_eq, show (s.writer.advance n r.byteLength).rangeOffset = 0 by
          rw [hadvance]] at hw hrun
        refine ⟨w, hmoved.trans hw, ?_⟩
        simp only
        rw [if_pos hfull, hrun, Nat.add_assoc]
      · -- nothing is left of the piece
        rw [Bytes.dropFirst_of_size_le (by omega), BlockSet.attemptAll_placing_empty]
        refine ⟨_, hmoved, ?_⟩
        simp only
        rw [if_neg hfull]
        rfl

/-- What becomes of a piece on the device: the writes at the position of the writer. -/
def attempts (s : Writing) (piece : Bytes) : Nat × Except OsError Unit × Device :=
  s.device.attemptAll s.writer.dryRun
    (placing (s.writer.set.ranges.drop s.writer.rangeIndex) s.writer.rangeOffset piece)

variable {s : Writing} {piece : Bytes}

/-- What does not fit is not attempted. -/
theorem attempts_takeFirst (h : s.writer.Counted) (hset : s.writer.set.Sound) (piece : Bytes) :
    attempts s (piece.takeFirst s.writer.remaining) = attempts s piece := by
  rw [attempts, ← h.rest_eq hset, BlockSet.placing_takeFirst fun r hr => Nat.le_of_lt (h.room r hr)]
  rfl

/-- A piece without a failed write is written as far as it fits. -/
theorem attempts_of_ok (h : s.writer.Counted) (hset : s.writer.set.Sound)
    (hok : (attempts s piece).2.1 = .ok ()) :
    (attempts s piece).1 = min piece.size s.writer.remaining := by
  rw [attempts] at hok ⊢
  rw [Device.attemptAll_of_ok hok, BlockSet.sum_placing fun r hr => Nat.le_of_lt (h.room r hr),
    h.rest_eq hset]

/-- **A write** gives what it counted. -/
theorem outcome_write (h : s.writer.Counted) (hset : s.writer.set.Sound) (piece : Bytes) :
    ∃ w, Moved s.writer w (attempts s piece).1 ∧
      outcome (write piece) s =
        ((attempts s piece).2.1.map fun _ => (attempts s piece).1,
          ⟨w, (attempts s piece).2.2⟩) := by
  obtain ⟨w, hw, hrun⟩ := outcome_writeRanges h hset rfl (Nat.zero_le piece.size)
  rw [Bytes.dropFirst_zero] at hw hrun
  refine ⟨w, hw, ?_⟩
  rw [write, outcome_get_bind]
  simp only [Nat.zero_add] at hrun
  exact hrun

/-- A piece that fits is written. -/
theorem outcome_put_of_le (hfits : piece.size ≤ s.writer.remaining) :
    outcome (put piece) s =
      (((outcome (write piece) s).1.mapError .os).map fun _ => (),
        (outcome (write piece) s).2) := by
  rw [put, outcome_get_bind]
  simp only
  rw [if_neg (Nat.not_lt.mpr hfits)]
  show outcome (mapError PatchError.os (write piece) >>= fun _ => pure ()) s = _
  rw [outcome_bind, outcome_writerMapError]
  rcases outcome (write piece) s with ⟨_ | _, _⟩ <;> rfl

/-- **A piece that does not fit is refused**, and nothing else happens. -/
theorem outcome_put_of_lt (hlong : s.writer.remaining < piece.size) :
    outcome (put piece) s =
      (.error (.outOfRange (.targetFull (piece.size - s.writer.remaining))), s) := by
  rw [put, outcome_get_bind]
  simp only
  rw [if_pos hlong]
  rfl

end BlockWriter

end BlockUpdate
