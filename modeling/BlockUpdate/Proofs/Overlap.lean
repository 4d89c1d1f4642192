import BlockUpdate.Proofs.Confined
import BlockUpdate.Proofs.Descriptors
import BlockUpdate.Proofs.ReadBack

/-!
# Overlapping sets

Two sets are compared range by range, each pair by its bounds. The bounds alone do not tell a common
block: an empty range has none, wherever its bounds are. Descriptors build no empty ranges.

A target that does not overlap its source may be written before the source was put aside: what is
written to one of two sets without a common block is not seen in the other.

- `BlockRange.overlaps_iff`, **`BlockSet.overlaps_iff`**: what overlaps has a common block.
- `Device.Confined.readable`: a window that a change spares, and that the image held before, is read
  as before.
- **`BlockSet.readRanges_write`**: so are the ranges of a set, whatever is written to another.
-/

namespace BlockUpdate

/-! ## Common blocks -/

namespace BlockRange

theorem overlaps_comm (a b : BlockRange) : a.overlaps b = b.overlaps a := Bool.and_comm ..

/-- Ranges that are not empty overlap exactly if they have a common block. -/
theorem overlaps_iff {a b : BlockRange} (ha : 0 < a.count) (hb : 0 < b.count) :
    a.overlaps b = true ↔
      ∃ block, (a.start ≤ block ∧ block < a.stop) ∧ b.start ≤ block ∧ block < b.stop := by
  simp only [overlaps, Bool.and_eq_true, decide_eq_true_eq]
  simp only [stop]
  constructor
  · -- the later of the two starts is a common block
    rintro ⟨hab, hba⟩
    exact ⟨max a.start b.start, by omega, by omega⟩
  · rintro ⟨block, ha, hb⟩
    omega

end BlockRange

namespace BlockSet

theorem overlaps_comm (a b : BlockSet) : a.overlaps b = b.overlaps a := by
  rw [Bool.eq_iff_iff]
  simp only [overlaps, List.any_eq_true]
  constructor
  · rintro ⟨r, hr, s, hs, h⟩
    exact ⟨s, hs, r, hr, (BlockRange.overlaps_comm s r).trans h⟩
  · rintro ⟨s, hs, r, hr, h⟩
    exact ⟨r, hr, s, hs, (BlockRange.overlaps_comm r s).trans h⟩

/-- **Sets without empty ranges overlap exactly if they have a common block.** -/
theorem overlaps_iff {a b : BlockSet} (ha : ∀ r ∈ a.ranges, 0 < r.count)
    (hb : ∀ r ∈ b.ranges, 0 < r.count) :
    a.overlaps b = true ↔ ∃ block, a.HasBlock block ∧ b.HasBlock block := by
  constructor
  · intro h
    obtain ⟨r, hr, h⟩ := List.any_eq_true.mp h
    obtain ⟨s, hs, h⟩ := List.any_eq_true.mp h
    obtain ⟨block, hr', hs'⟩ := (BlockRange.overlaps_iff (ha r hr) (hb s hs)).mp h
    exact ⟨block, ⟨r, hr, hr'⟩, s, hs, hs'⟩
  · rintro ⟨block, ha, hb⟩
    exact overlaps_of_hasBlock ha hb

end BlockSet

/-! ## What a write leaves to be read -/

/-- A window that a change spares, and that the image held before, is read as before. -/
theorem Device.Confined.readable {region : Nat → Prop} {d d' : Device} (h : d.Confined region d')
    {start len : Nat} (hheld : start + len ≤ d.image.size)
    (hspared : ∀ i, start ≤ i → i < start + len → ¬ region i) :
    d'.readable start len = d.readable start len := by
  have hfound : d'.image.extract start (start + len) = d.image.extract start (start + len) := by
    have hsize := h.size_le
    refine Bytes.ext_byte (by simp only [ByteArray.size_extract]; omega) fun k => ?_
    rw [Bytes.byte_extract, Bytes.byte_extract, Nat.min_eq_left hheld,
      Nat.min_eq_left (Nat.le_trans hheld hsize)]
    split
    · exact h.byte _ (hspared _ (by omega) (by omega))
    · rfl
  rw [Device.readable, Device.readable, h.faults, h.endless, hfound]

namespace BlockSet

variable {a b : BlockSet} {d : Device}

/-- A device that delivers the same of every range. -/
theorem readRanges_of_readable {d' : Device} {ranges : List BlockRange}
    (h : ∀ r ∈ ranges, d'.readable r.byteStart r.byteLength = d.readable r.byteStart r.byteLength)
    (out : Bytes) : readRanges d' ranges out = readRanges d ranges out := by
  induction ranges generalizing out with
  | nil => rfl
  | cons r rest ih =>
    obtain ⟨hr, hrest⟩ := List.forall_mem_cons.mp h
    simp only [readRanges, hr, ih hrest]

/-- **What is written to one of two sets without a common byte is not seen in the other**, however
much of it is written. -/
theorem readRanges_write (hapart : ∀ i, a.HasByte i → ¬ b.HasByte i)
    (hheld : Within b.ranges d.image.size) (data out : Bytes) :
    readRanges (outcome (a.write data) d).2 b.ranges out = readRanges d b.ranges out := by
  have hconfined : d.Confined a.HasByte (outcome (a.write data) d).2 := confined_write a data d
  exact readRanges_of_readable (fun r hr =>
    hconfined.readable (hheld r hr) fun i hle hlt ha => hapart i ha ⟨r, hr, hle, hlt⟩) out

/-- **Overlap is exact.** Two sets that descriptors built overlap if and only if some block belongs to
both, so it does not matter which of them is asked. If they do not overlap, nothing that is written to
the first, be it in full or up to some failure, makes a difference to what is read of the second, as
long as the second lies within the image: to whether it can be read, and to what the attempt leaves in
the buffer. -/
theorem overlaps_exact (ha : Built a) (hb : Built b) :
    (a.overlaps b = true ↔ ∃ block, a.HasBlock block ∧ b.HasBlock block) ∧
      a.overlaps b = b.overlaps a ∧
      (a.overlaps b = false → ∀ d data, Within b.ranges d.image.size →
        b.read? (outcome (a.write data) d).2 = b.read? d ∧
        b.readInto (outcome (a.write data) d).2 = b.readInto d) := by
  refine ⟨overlaps_iff ha.sound.nonempty hb.sound.nonempty, overlaps_comm a b,
    fun h d data hheld => ?_⟩
  have hread := readRanges_write (fun i => not_hasByte_of_overlaps_eq_false h) hheld data
    ByteArray.empty
  exact ⟨by rw [read?, read?, hread], by rw [readInto, readInto, hread]⟩

/-- One of two sets between two ranges of a third overlaps it, the other one does not. -/
theorem overlaps_exact_between :
    let a : BlockSet := ⟨[⟨6, 2⟩, ⟨0, 2⟩], 4⟩
    let b : BlockSet := ⟨[⟨1, 3⟩], 3⟩
    let c : BlockSet := ⟨[⟨2, 4⟩], 4⟩
    let d := Device.file (Bytes.zeros 32768)
    let data := Bytes.replicate 16384 1
    Built a ∧ Built b ∧ Built c ∧ a.overlaps b = true ∧
      (∃ block, a.HasBlock block ∧ b.HasBlock block) ∧ a.overlaps c = false ∧
      Within c.ranges d.image.size ∧ c.read? (outcome (a.write data) d).2 = c.read? d ∧
      c.readInto (outcome (a.write data) d).2 = c.readInto d := by
  intro a b c d data
  have ha : Built a := .parse (by rfl : parse "4,6,8,0,2" = _)
  have hb : Built b := .parse (by rfl : parse "2,1,4" = _)
  have hc : Built c := .parse (by rfl : parse "2,2,6" = _)
  have hheld : Within c.ranges d.image.size := by
    simp [c, d, Within, Device.file, BlockRange.byteStart, BlockRange.byteLength, blockSize]
  obtain ⟨hcommon, -, -⟩ := overlaps_exact ha hb
  obtain ⟨-, -, hspared⟩ := overlaps_exact ha hc
  exact ⟨ha, hb, hc, rfl, hcommon.mp rfl, rfl, hheld, hspared rfl d data hheld⟩

end BlockSet

end BlockUpdate
