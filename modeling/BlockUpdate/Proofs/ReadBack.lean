import BlockUpdate.Proofs.PieceWrites
import BlockUpdate.Proofs.Reading

/-!
# Reading back what was written

A buffer is written across the ranges of a set in their order, and a set is read in the same order.
The ranges may lie anywhere, also behind the end of a file: it grows, and the gaps read as zeros.

- `BlockSet.Within`, `Apart`: ranges that an image holds, and ranges without common bytes.
- `BlockSet.contents`: the bytes of some ranges of an image, in their order.
- **`read?_of_within`**, **`read?_of_not_within`**: a file delivers them exactly if it holds every
  range.
- **`write_eq_ok`**: what a write that succeeds did; `write_of_reliable`: when one does.
- **`contents_overwrite_placing`**: ranges without common bytes hold what was laid on them.
- **`read_back`**: both together, and what lies outside the ranges.
-/

namespace BlockUpdate

/-! ## Single operations -/

namespace Device

variable {d d' : Device} {start len : Nat} {data : Bytes}

/-- What a file delivers of a window that it holds. -/
theorem readable_of_le (hendless : d.endless = false) (hreads : d.faults.read start = none)
    (hstart : start < offsetLimit) (h : start + len ≤ d.image.size) :
    d.readable start len = d.image.extract start (start + len) ∧
      (d.readable start len).size = len := by
  have hread : d.readable start len = d.image.extract start (start + len) := by
    simp only [readable, if_neg (Nat.not_le.mpr hstart), hreads, hendless, Bool.false_eq_true,
      if_false]
  refine ⟨hread, ?_⟩
  rw [hread, ByteArray.size_extract]
  omega

end Device

namespace BlockSet

/-! ## Where data is laid -/

/-- Some ranges lie within an image. -/
def Within (ranges : List BlockRange) (size : Nat) : Prop :=
  ∀ r ∈ ranges, r.byteStart + r.byteLength ≤ size

/-- No two ranges have a common byte. -/
def Apart (ranges : List BlockRange) : Prop :=
  ranges.Pairwise fun r q => ∀ i, r.byteStart ≤ i → i < r.byteStart + r.byteLength →
    ¬ (q.byteStart ≤ i ∧ i < q.byteStart + q.byteLength)

section Placing

variable {ranges : List BlockRange} {data image : Bytes} {i : Nat}

/-- Data is laid on its ranges, and nowhere else. -/
theorem inRanges_of_covered_placing (h : Write.Covered (placing ranges 0 data) i) :
    InRanges ranges i := by
  induction ranges generalizing data with
  | nil => exact absurd h (Write.not_covered_nil i)
  | cons r rest ih =>
    rw [inRanges_cons]
    rcases (Write.covered_cons ..).mp h with ⟨hstart, hstop⟩ | h
    · rw [Bytes.size_takeFirst] at hstop
      simp only [Nat.add_zero, Nat.sub_zero] at hstart hstop
      exact .inl ⟨hstart, by omega⟩
    · exact .inr (ih h)

/-- Data that is long enough covers its ranges. -/
theorem covered_placing (hdata : rangesLength ranges ≤ data.size) (h : InRanges ranges i) :
    Write.Covered (placing ranges 0 data) i := by
  induction ranges generalizing data with
  | nil => exact absurd h (not_inRanges_nil i)
  | cons r rest ih =>
    rw [rangesLength_cons] at hdata
    rw [placing, Write.covered_cons]
    rcases (inRanges_cons ..).mp h with ⟨hstart, hstop⟩ | h
    · have hfirst : i < r.byteStart + 0 + (data.takeFirst (r.byteLength - 0)).size := by
        rw [Bytes.size_takeFirst]
        omega
      exact .inl ⟨(by omega : r.byteStart + 0 ≤ i), hfirst⟩
    · refine .inr (ih ?_ h)
      rw [Bytes.size_dropFirst]
      omega

/-- An image on which enough data was laid holds the ranges. -/
theorem within_overwrite_placing (hpos : ∀ r ∈ ranges, 0 < r.count)
    (hdata : rangesLength ranges ≤ data.size) :
    Within ranges (image.overwrite (placing ranges 0 data)).size := by
  intro r hr
  have hlength := BlockRange.byteLength_pos (hpos r hr)
  have hlast := Write.lt_reach (covered_placing hdata ⟨r, hr, (by omega :
    r.byteStart ≤ r.byteStart + r.byteLength - 1), by omega⟩)
  rw [Bytes.size_overwrite]
  omega

end Placing

/-! ## Contents -/

/-- The bytes of some ranges of an image, in the order of the ranges. -/
def contents (ranges : List BlockRange) (image : Bytes) : Bytes :=
  Bytes.join (ranges.map fun r => image.extract r.byteStart (r.byteStart + r.byteLength))

section Contents

variable {ranges : List BlockRange} {data image out : Bytes} {d : Device}

@[simp] theorem contents_nil (image : Bytes) : contents [] image = ByteArray.empty := rfl

@[simp] theorem contents_cons (r : BlockRange) (rest : List BlockRange) (image : Bytes) :
    contents (r :: rest) image =
      image.extract r.byteStart (r.byteStart + r.byteLength) ++ contents rest image := by
  rw [contents, List.map_cons, Bytes.join_cons]
  rfl

theorem size_contents (h : Within ranges image.size) :
    (contents ranges image).size = rangesLength ranges := by
  induction ranges with
  | nil => rfl
  | cons r rest ih =>
    have hr := h r List.mem_cons_self
    rw [contents_cons, ByteArray.size_append, ih fun q hq => h q (List.mem_cons_of_mem r hq),
      rangesLength_cons, ByteArray.size_extract]
    omega

/-- Ranges that a file holds are read one behind the other. -/
theorem readRanges_of_within (hendless : d.endless = false)
    (hreads : ∀ start, d.faults.read start = none)
    (hlimit : ∀ r ∈ ranges, r.byteStart < Device.offsetLimit) (h : Within ranges d.image.size) :
    readRanges d ranges out = (out ++ contents ranges d.image, true) := by
  induction ranges generalizing out with
  | nil => rw [readRanges, contents_nil, ByteArray.append_empty]
  | cons r rest ih =>
    obtain ⟨hread, hsize⟩ := Device.readable_of_le hendless (hreads r.byteStart)
      (hlimit r List.mem_cons_self) (h r List.mem_cons_self)
    rw [readRanges, if_pos hsize, ih (fun q hq => hlimit q (List.mem_cons_of_mem r hq))
      fun q hq => h q (List.mem_cons_of_mem r hq), hread, contents_cons, ByteArray.append_assoc]

/-- **A file delivers the ranges that it holds.** -/
theorem read?_of_within {set : BlockSet} (hendless : d.endless = false)
    (hreads : ∀ start, d.faults.read start = none)
    (hlimit : ∀ r ∈ set.ranges, r.byteStart < Device.offsetLimit)
    (h : Within set.ranges d.image.size) : set.read? d = some (contents set.ranges d.image) := by
  rw [read?_eq_some, readRanges_of_within hendless hreads hlimit h, ByteArray.empty_append]

/-- **A file delivers no set that it does not hold.** -/
theorem read?_of_not_within {set : BlockSet} (hset : set.Sound) (hendless : d.endless = false)
    (h : ¬ Within set.ranges d.image.size) : set.read? d = none := by
  rw [Option.eq_none_iff_forall_not_mem]
  intro data hdata
  refine h fun r hr => ?_
  have hlength := BlockRange.byteLength_pos (hset.nonempty r hr)
  have hlast := lt_size_of_read? hendless hdata ⟨r, hr, (by omega :
    r.byteStart ≤ r.byteStart + r.byteLength - 1), by omega⟩
  omega

/-- A range that no write touches keeps its bytes. -/
theorem extract_overwrite {ws : List Write} {start stop : Nat} (hsize : stop ≤ image.size)
    (h : ∀ i, start ≤ i → i < stop → ¬ Write.Covered ws i) :
    (image.overwrite ws).extract start stop = image.extract start stop := by
  refine Bytes.ext_byte ?_ fun k => ?_
  · rw [ByteArray.size_extract, ByteArray.size_extract, Bytes.size_overwrite]
    omega
  · rw [Bytes.byte_extract, Bytes.byte_extract, Bytes.size_overwrite]
    by_cases hk : start + k < stop
    · rw [if_pos (by omega), if_pos (by omega),
        Bytes.byte_overwrite_of_not_covered image (h _ (by omega) hk)]
    · rw [if_neg (by omega), if_neg (by omega)]

/-- **Ranges without common bytes hold what was laid on them**, in their order. -/
theorem contents_overwrite_placing (hapart : Apart ranges)
    (hdata : rangesLength ranges ≤ data.size) :
    contents ranges (image.overwrite (placing ranges 0 data)) =
      data.takeFirst (rangesLength ranges) := by
  induction ranges generalizing data image with
  | nil => rw [contents_nil, rangesLength_nil, Bytes.takeFirst_zero]
  | cons r rest ih =>
    rw [rangesLength_cons] at hdata
    obtain ⟨hfirst, hrest⟩ := List.pairwise_cons.mp hapart
    have hfront : (data.takeFirst r.byteLength).size = r.byteLength := by
      rw [Bytes.size_takeFirst]
      omega
    have hback : rangesLength rest ≤ (data.dropFirst r.byteLength).size := by
      rw [Bytes.size_dropFirst]
      omega
    let laid := image.after ⟨r.byteStart, data.takeFirst r.byteLength⟩
    have hplacing : image.overwrite (placing (r :: rest) 0 data) =
        laid.overwrite (placing rest 0 (data.dropFirst r.byteLength)) := by
      rw [placing, Nat.sub_zero, Nat.add_zero]
      rfl
    -- what is laid on the other ranges leaves the first one
    have hkept : (laid.overwrite (placing rest 0 (data.dropFirst r.byteLength))).extract r.byteStart
        (r.byteStart + r.byteLength) = data.takeFirst r.byteLength := by
      by_cases hempty : r.byteLength = 0
      · rw [hempty, Nat.add_zero, ByteArray.extract_same, Bytes.takeFirst_zero]
      have hlaid : laid = image.writeAt r.byteStart (data.takeFirst r.byteLength) := if_neg (by
        show ¬ (data.takeFirst r.byteLength).size = 0
        omega)
      rw [extract_overwrite]
      · rw [hlaid]
        refine Bytes.ext_byte ?_ fun k => ?_
        · rw [ByteArray.size_extract, Bytes.size_writeAt]
          omega
        · rw [Bytes.byte_extract, Bytes.size_writeAt, Bytes.byte_writeAt, hfront]
          by_cases hk : k < r.byteLength
          · rw [if_pos (by omega), if_pos (by omega), Nat.add_sub_cancel_left]
          · rw [if_neg (by omega), Bytes.byte_of_le (by omega)]
      · rw [hlaid, Bytes.size_writeAt]
        omega
      · intro i hstart hstop hcovered
        obtain ⟨q, hq, hi⟩ := inRanges_of_covered_placing hcovered
        exact hfirst q hq i hstart hstop hi
    rw [hplacing, contents_cons, hkept, ih hrest hback, rangesLength_cons, Bytes.takeFirst_add]

end Contents

/-! ## Buffers -/

section Buffers

variable {ranges : List BlockRange} {position n : Nat} {data : Bytes} {d d' : Device}

/-- A buffer from a position on begins with the part of the first range. -/
theorem placing_extract (r : BlockRange) (rest : List BlockRange) (data : Bytes) (position : Nat) :
    placing (r :: rest) 0 (data.dropFirst position) =
      ⟨r.byteStart, data.extract position (position + r.byteLength)⟩ ::
        placing rest 0 (data.dropFirst (position + r.byteLength)) := by
  rw [placing, Nat.sub_zero, Nat.add_zero, Bytes.takeFirst_dropFirst, Bytes.dropFirst_dropFirst]

/-- A buffer is written range by range. -/
theorem writeRanges_eq_ok (hpos : ∀ r ∈ ranges, 0 < r.count)
    (hdata : position + rangesLength ranges ≤ data.size)
    (h : outcome (writeRanges data ranges position) d = (.ok n, d')) :
    n = position + rangesLength ranges ∧ (∀ r ∈ ranges, r.byteStart < Device.offsetLimit) ∧
      d' = d.after (placing ranges 0 (data.dropFirst position)) := by
  induction ranges generalizing position d with
  | nil =>
    obtain ⟨hn, hd⟩ := Prod.mk.inj h
    exact ⟨(Except.ok.inj hn).symm, fun r hr => absurd hr List.not_mem_nil, hd.symm⟩
  | cons r rest ih =>
    rw [rangesLength_cons] at hdata ⊢
    have hlength := BlockRange.byteLength_pos (hpos r List.mem_cons_self)
    have hpiece : 0 < (data.extract position (position + r.byteLength)).size := by
      rw [ByteArray.size_extract]
      omega
    rw [writeRanges] at h
    obtain ⟨⟨⟩, d₁, hwrite, h⟩ := outcome_bind_eq_ok.mp h
    obtain ⟨hstart, -, rfl⟩ := (Device.write_eq_ok hpiece).mp hwrite
    obtain ⟨hn, hlimit, hd'⟩ := ih (fun q hq => hpos q (List.mem_cons_of_mem r hq)) (by omega) h
    refine ⟨by omega, ?_, ?_⟩
    · rintro q (_ | ⟨_, hq⟩)
      · exact hstart
      · exact hlimit q hq
    · rw [hd', placing_extract, ← Device.after_append]
      rfl

/-- **A buffer whose write succeeds** is laid on the set. -/
theorem write_eq_ok {set : BlockSet} (hset : set.Sound) (hdata : set.byteLength ≤ data.size)
    (h : outcome (set.write data) d = (.ok n, d')) :
    n = set.byteLength ∧ (∀ r ∈ set.ranges, r.byteStart < Device.offsetLimit) ∧
      d' = d.after (placing set.ranges 0 data) := by
  have hbuffer : set.checkBuffer data.size = .ok () := if_neg (Nat.not_lt.mpr hdata)
  rw [write, hbuffer] at h
  have hranges : outcome (writeRanges data set.ranges 0) d = (.ok n, d') := by
    have h : outcome ((writeRanges data set.ranges 0).mapError BlockError.os) d = (.ok n, d') := h
    rw [outcome_deviceMapError] at h
    obtain ⟨hn, hd⟩ := Prod.mk.inj h
    exact Prod.ext (mapError_eq_ok.mp hn) hd
  rw [hset.byteLength_eq] at hdata ⊢
  obtain ⟨hn, hlimit, hd'⟩ := writeRanges_eq_ok hset.nonempty (by omega) hranges
  rw [Bytes.dropFirst_zero] at hd'
  exact ⟨by omega, hlimit, hd'⟩

theorem writeRanges_of_reliable (hpos : ∀ r ∈ ranges, 0 < r.count)
    (hdata : position + rangesLength ranges ≤ data.size) (hwrites : ∀ k, d.faults.write k = none)
    (hlimit : ∀ r ∈ ranges, r.byteStart < Device.offsetLimit) :
    outcome (writeRanges data ranges position) d = (.ok (position + rangesLength ranges),
      d.after (placing ranges 0 (data.dropFirst position))) := by
  induction ranges generalizing position d with
  | nil => rfl
  | cons r rest ih =>
    rw [rangesLength_cons] at hdata ⊢
    have hlength := BlockRange.byteLength_pos (hpos r List.mem_cons_self)
    have hpiece : 0 < (data.extract position (position + r.byteLength)).size := by
      rw [ByteArray.size_extract]
      omega
    have hwrite : outcome (DeviceM.write r.byteStart
        (data.extract position (position + r.byteLength))) d = (.ok (), _) :=
      (Device.write_eq_ok hpiece).mpr ⟨hlimit r List.mem_cons_self, hwrites _, rfl⟩
    have hrest := @ih (position + r.byteLength)
      (d.after [⟨r.byteStart, data.extract position (position + r.byteLength)⟩])
      (fun q hq => hpos q (List.mem_cons_of_mem r hq)) (by omega) hwrites
      fun q hq => hlimit q (List.mem_cons_of_mem r hq)
    rw [writeRanges, outcome_bind_of_ok hwrite, hrest, placing_extract, ← Device.after_append,
      Nat.add_assoc]
    rfl

/-- **A buffer is written** to a device whose writes succeed, if the offsets are valid. -/
theorem write_of_reliable {set : BlockSet} (hset : set.Sound) (hdata : set.byteLength ≤ data.size)
    (hwrites : ∀ k, d.faults.write k = none)
    (hlimit : ∀ r ∈ set.ranges, r.byteStart < Device.offsetLimit) :
    outcome (set.write data) d = (.ok set.byteLength, d.after (placing set.ranges 0 data)) := by
  have hbuffer : set.checkBuffer data.size = .ok () := if_neg (Nat.not_lt.mpr hdata)
  have hroom : 0 + rangesLength set.ranges ≤ data.size := by
    rw [← hset.byteLength_eq]
    omega
  have hranges := writeRanges_of_reliable hset.nonempty hroom hwrites hlimit
  rw [write, hbuffer]
  show outcome ((writeRanges data set.ranges 0).mapError BlockError.os) d = _
  rw [outcome_deviceMapError, hranges, Bytes.dropFirst_zero, Nat.zero_add, hset.byteLength_eq]
  rfl

end Buffers

/-! ## Read-back -/

/-- **A set can be read exactly if the file holds every range**, and a buffer that was written in
full is read back if no two ranges have a common byte. A write that succeeds may have grown the
file; what it held outside the ranges, it still holds. -/
theorem read_back {set : BlockSet} (hset : set.Sound) {d : Device} (hendless : d.endless = false)
    (hreads : ∀ start, d.faults.read start = none) (hlimit : d.image.size ≤ Device.offsetLimit) :
    (Within set.ranges d.image.size → set.read? d = some (contents set.ranges d.image) ∧
        (contents set.ranges d.image).size = set.byteLength) ∧
      (¬ Within set.ranges d.image.size → set.read? d = none) ∧
      ∀ data n d', set.byteLength ≤ data.size → outcome (set.write data) d = (.ok n, d') →
        n = set.byteLength ∧
        (Apart set.ranges → set.read? d' = some (data.takeFirst set.byteLength)) ∧
        d.image.size ≤ d'.image.size ∧
        ∀ i < d.image.size, ¬ set.HasByte i → d'.image.byte i = d.image.byte i := by
  refine ⟨fun hwithin => ⟨?_, ?_⟩, read?_of_not_within hset hendless, ?_⟩
  · refine read?_of_within hendless hreads (fun r hr => ?_) hwithin
    have := BlockRange.byteLength_pos (hset.nonempty r hr)
    have := hwithin r hr
    omega
  · rw [size_contents hwithin, hset.byteLength_eq]
  · intro data n d' hdata hwrite
    obtain ⟨hn, hstarts, rfl⟩ := write_eq_ok hset hdata hwrite
    rw [hset.byteLength_eq] at hdata
    refine ⟨hn, fun hapart => ?_, ?_, fun i _ hout => ?_⟩
    · have hwithin : Within set.ranges (d.after (placing set.ranges 0 data)).image.size :=
        within_overwrite_placing hset.nonempty hdata
      rw [read?_of_within (d := d.after _) hendless hreads hstarts hwithin, Device.after_image,
        contents_overwrite_placing hapart hdata, hset.byteLength_eq]
    · rw [Device.after_image, Bytes.size_overwrite]
      omega
    · rw [Device.after_image]
      exact Bytes.byte_overwrite_of_not_covered _ fun hcovered =>
        hout (inRanges_of_covered_placing hcovered)

/-- Two blocks are written in reverse order behind a file of one block, with a gap between. -/
theorem read_back_gap :
    let set : BlockSet := ⟨[⟨3, 1⟩, ⟨0, 1⟩], 2⟩
    let d := Device.file (Bytes.zeros 4096)
    let data := Bytes.replicate 4096 1 ++ Bytes.replicate 4097 2
    set.read? d = none ∧ ∃ d', outcome (set.write data) d = (.ok 8192, d') ∧
      set.read? d' = some (data.takeFirst 8192) := by
  intro set d data
  have hset : set.Sound := sound_of_parse (by rfl : parse "4,3,4,0,1" = _)
  have hlength : set.byteLength = 8192 := by decide
  have hdata : set.byteLength ≤ data.size := by simp [hlength, data]
  have hlimit : d.image.size ≤ Device.offsetLimit := by
    simp [d, Device.file, Device.offsetLimit]
  have hapart : Apart set.ranges := by
    simp [set, Apart, BlockRange.byteStart, BlockRange.byteLength, blockSize]
    omega
  have hout : ¬ Within set.ranges d.image.size := by
    simp [set, d, Within, Device.file, BlockRange.byteStart, BlockRange.byteLength, blockSize]
  have hstarts : ∀ r ∈ set.ranges, r.byteStart < Device.offsetLimit := by
    simp [set, BlockRange.byteStart, blockSize, Device.offsetLimit]
  have hwrite : outcome (set.write data) d = (.ok set.byteLength, _) :=
    write_of_reliable hset hdata (fun _ => rfl) hstarts
  obtain ⟨-, hunreadable, hback⟩ := read_back hset (d := d) rfl (fun _ => rfl) hlimit
  have hread := (hback data _ _ hdata hwrite).2.1 hapart
  rw [hlength] at hwrite hread
  exact ⟨hunreadable hout, _, hwrite, hread⟩

end BlockSet

end BlockUpdate
