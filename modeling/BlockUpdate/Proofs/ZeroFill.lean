import BlockUpdate.Proofs.AgreementBlocks
import BlockUpdate.Proofs.Descriptors
import BlockUpdate.Proofs.ReadBack

/-!
# Filling a set with zeros

Zeros are written in runs. How long a run is depends on the set as a whole, so the ranges of a set need
not be made of whole runs: the last run of a range is as long as what is left of it. But a run of
nothing gets nowhere. The length of a run is computed in a word, so it depends on the size of the set
there, and that may be nothing although the set has ranges.

- **`BlockSet.image_zeroFrom`**: the runs that fill a window leave what one write of it would leave.
- `BlockSet.zeroFrom_of_reliable`: they get to the end of it, on a device whose writes succeed.
- `BlockSet.placing_zeros`: a buffer of zeros puts as many on each range as the range has bytes.
- **`BlockSet.zero_eq_write`**: to fill a set with zeros is to write such a buffer to it, if the size
  of the set fits a word.
- **`BlockSet.zero_quadrupled`**: where it does not fit, the fill need not end.
-/

namespace BlockUpdate

namespace Bytes

theorem zeros_append (m n : Nat) : zeros m ++ zeros n = zeros (m + n) := by
  refine ext_byte (by simp) fun i => ?_
  rw [byte_append, byte_zeros, byte_zeros, byte_zeros, ite_self]

theorem takeFirst_zeros (m n : Nat) : (zeros m).takeFirst n = zeros (min n m) := by
  refine ext_byte (by simp) fun i => ?_
  rw [takeFirst, byte_extract, byte_zeros, byte_zeros, ite_self]

theorem dropFirst_zeros (m n : Nat) : (zeros m).dropFirst n = zeros (m - n) := by
  refine ext_byte (by simp) fun i => ?_
  rw [dropFirst, byte_extract, byte_zeros, byte_zeros, ite_self]

end Bytes

namespace BlockSet

variable {set : BlockSet} {ranges : List BlockRange} {run start length : Nat} {d d' : Device}

/-! ## One window -/

/-- **The runs that fill a window** leave what one write of the window would leave. -/
theorem image_zeroFrom (hrun : 0 < run) (done : Nat) (d : Device)
    (h : outcome (zeroFrom run hrun start length done) d = (.ok (), d')) :
    d'.image = d.image.after ⟨start + done, Bytes.zeros (length - done)⟩ := by
  fun_induction zeroFrom run hrun start length done generalizing d with
  | case1 done hmore n ih =>
    have hn : n ≤ length - done := Nat.min_le_left ..
    -- one run, then the rest of the window: two writes side by side are one
    obtain ⟨⟨⟩, d₁, hwrite, hrest⟩ := outcome_bind_eq_ok.mp h
    obtain ⟨-, -, rfl⟩ := (Device.write_eq_ok (by rw [Bytes.size_zeros]; omega)).mp hwrite
    rw [ih _ hrest, Device.after_image, Bytes.overwrite, Bytes.overwrite]
    have hjoin := Bytes.after_append d.image (start + done) (Bytes.zeros n)
      (Bytes.zeros (length - done - n))
    rw [Bytes.size_zeros, Bytes.zeros_append, Nat.add_sub_cancel' hn, Nat.sub_sub,
      Nat.add_assoc] at hjoin
    exact hjoin.symm
  | case2 done hdone =>
    have hnone : length - done = 0 := by omega
    cases h
    rw [hnone]
    rfl

/-- Every run is followed by the next one, to the end of the window. -/
theorem zeroFrom_of_reliable (hrun : 0 < run) (done : Nat) (d : Device)
    (hwrites : ∀ k, d.faults.write k = none) (hlimit : start + length ≤ Device.offsetLimit) :
    ∃ d', outcome (zeroFrom run hrun start length done) d = (.ok (), d') ∧
      d'.faults = d.faults := by
  fun_induction zeroFrom run hrun start length done generalizing d with
  | case1 done hmore n ih =>
    have hwrite : outcome (DeviceM.write (start + done) (Bytes.zeros n)) d = (.ok (), _) :=
      (Device.write_eq_ok (by rw [Bytes.size_zeros]; omega)).mpr ⟨by omega, hwrites _, rfl⟩
    obtain ⟨d', hrest, hfaults⟩ := ih (d.after [⟨start + done, Bytes.zeros n⟩]) hwrites
    exact ⟨d', by rw [outcome_bind_of_ok hwrite, hrest], hfaults⟩
  | case2 done hdone => exact ⟨d, rfl, rfl⟩

/-! ## Ranges -/

/-- Zeros for each of some ranges. -/
def zeroing (ranges : List BlockRange) : List Write :=
  ranges.map fun r => ⟨r.byteStart, Bytes.zeros r.byteLength⟩

/-- **A buffer of zeros** puts as many on each range as the range has bytes. -/
theorem placing_zeros {n : Nat} (h : rangesLength ranges ≤ n) :
    placing ranges 0 (Bytes.zeros n) = zeroing ranges := by
  induction ranges generalizing n with
  | nil => rfl
  | cons r rest ih =>
    rw [rangesLength_cons] at h
    rw [placing, Nat.add_zero, Nat.sub_zero, Bytes.takeFirst_zeros, Nat.min_eq_left (by omega),
      Bytes.dropFirst_zeros, ih (by omega)]
    rfl

theorem image_clearRanges (hrun : 0 < run)
    (h : outcome (clearRanges run hrun false ranges) d = (.ok (), d')) :
    d'.image = d.image.overwrite (zeroing ranges) := by
  induction ranges generalizing d with
  | nil =>
    cases h
    rfl
  | cons r rest ih =>
    rw [clearRanges_cons] at h
    obtain ⟨⟨⟩, d₁, hfirst, hrest⟩ := outcome_bind_eq_ok.mp h
    rw [ih hrest, image_zeroFrom hrun 0 d hfirst, Nat.add_zero, Nat.sub_zero]
    rfl

theorem clearRanges_of_reliable (hrun : 0 < run) (hwrites : ∀ k, d.faults.write k = none)
    (hlimit : ∀ r ∈ ranges, r.byteStart + r.byteLength ≤ Device.offsetLimit) :
    ∃ d', outcome (clearRanges run hrun false ranges) d = (.ok (), d') := by
  induction ranges generalizing d with
  | nil => exact ⟨d, rfl⟩
  | cons r rest ih =>
    obtain ⟨hr, hrest⟩ := List.forall_mem_cons.mp hlimit
    obtain ⟨d₁, hfirst, hfaults⟩ := zeroFrom_of_reliable hrun 0 d hwrites hr
    obtain ⟨d', h⟩ := @ih d₁ (hfaults ▸ hwrites) hrest
    exact ⟨d', by rw [clearRanges_cons, outcome_bind_of_ok hfirst, h]⟩

/-! ## Sets -/

/-- On a file, an erase that is allowed, and a plain fill, write zeros. -/
theorem outcome_zero_file {isErase allowFileErase : Bool}
    (h : isErase = true → allowFileErase = true) (set : BlockSet)
    (hfile : d.isBlockDevice = false) :
    outcome (set.zero isErase allowFileErase) d = outcome (set.cleared false) d := by
  rw [outcome_zero, hfile]
  cases isErase
  · rfl
  · rw [h rfl]
    rfl

/-- An erase that is not allowed is refused on a file. -/
theorem outcome_zero_refused (set : BlockSet) (hfile : d.isBlockDevice = false) :
    outcome (set.zero true false) d = (.error .notBlockDevice, d) := by
  rw [outcome_zero, hfile]
  rfl

theorem image_cleared (hset : set.Sound) (h : outcome (set.cleared false) d = (.ok (), d')) :
    d'.image = d.image.overwrite (placing set.ranges 0 (Bytes.zeros set.byteLength)) := by
  rw [placing_zeros hset.byteLength_eq.ge]
  rw [cleared] at h
  split at h
  next hrun =>
    rw [outcome_deviceMapError] at h
    obtain ⟨hresult, hd⟩ := Prod.mk.inj h
    exact image_clearRanges hrun (Prod.ext (mapError_eq_ok.mp hresult) hd)
  next hrun =>
    have hranges : set.ranges = [] := Decidable.not_not.mp fun hne => hrun (zeroRun_pos hset hne)
    cases h
    rw [hranges]
    rfl

/-- **A set that was filled with zeros** holds what a buffer of zeros leaves. -/
theorem image_zero (hset : set.Sound) (hfile : d.isBlockDevice = false)
    {isErase allowFileErase : Bool}
    (h : outcome (set.zero isErase allowFileErase) d = (.ok (), d')) :
    d'.image = d.image.overwrite (placing set.ranges 0 (Bytes.zeros set.byteLength)) := by
  have hallowed : isErase = true → allowFileErase = true := by
    rintro rfl
    cases allowFileErase
    · rw [outcome_zero_refused set hfile] at h
      cases h
    · rfl
  rw [outcome_zero_file hallowed set hfile] at h
  exact image_cleared hset h

theorem cleared_of_reliable (hwrites : ∀ k, d.faults.write k = none)
    (hlimit : ∀ r ∈ set.ranges, r.byteStart + r.byteLength ≤ Device.offsetLimit) :
    ∃ d', outcome (set.cleared false) d = (.ok (), d') := by
  rw [cleared]
  split
  next hrun =>
    obtain ⟨d', h⟩ := clearRanges_of_reliable hrun hwrites hlimit
    exact ⟨d', by rw [outcome_deviceMapError, h]; rfl⟩
  next => exact ⟨d, rfl⟩

/-! ## Words -/

/-- **Zeros in runs, and a buffer of zeros, leave the same image**, however the program is built, if
the size of the set fits a word. On a file whose writes succeed, up to the largest offset, both are
written to the end, whether the ranges of the set overlap or not, and also by an erase that is allowed.
No more is needed for the images to be the same than that both succeed. An erase that is not allowed is
refused before anything is written, whatever the size. -/
theorem zero_eq_write (b : Build) (hset : Built set) (hfile : d.isBlockDevice = false) :
    (set.byteLength < 2 ^ 64 →
      ((∀ k, d.faults.write k = none) →
        (∀ r ∈ set.ranges, r.byteStart + r.byteLength ≤ Device.offsetLimit) →
        ∀ isErase allowFileErase, (isErase = true → allowFileErase = true) → ∃ d₁ d₂,
          outcome (Compiled.zero b set isErase allowFileErase) d = (.ok (), d₁) ∧
          outcome (Compiled.write b set (Bytes.zeros set.byteLength)) d =
            (.ok set.byteLength, d₂) ∧
          d₁.image = d₂.image) ∧
        ∀ isErase allowFileErase n d₁ d₂,
          outcome (Compiled.zero b set isErase allowFileErase) d = (.ok (), d₁) →
          outcome (Compiled.write b set (Bytes.zeros set.byteLength)) d = (.ok n, d₂) →
          d₁.image = d₂.image) ∧
      outcome (Compiled.zero b set true false) d = (.error (.failed .notBlockDevice), d) := by
  have hdata : set.byteLength ≤ (Bytes.zeros set.byteLength).size := by rw [Bytes.size_zeros]
  have hsame : ∀ isErase allowFileErase n d₁ d₂,
      outcome (set.zero isErase allowFileErase) d = (.ok (), d₁) →
      outcome (set.write (Bytes.zeros set.byteLength)) d = (.ok n, d₂) → d₁.image = d₂.image := by
    intro isErase allowFileErase n d₁ d₂ hzero hwrite
    obtain ⟨-, -, rfl⟩ := write_eq_ok hset.sound hdata hwrite
    exact image_zero hset.sound hfile hzero
  have hzeros (hfits : set.byteLength < 2 ^ 64) (isErase allowFileErase : Bool) :=
    (Compiled.agrees_zero (b := b) hset.valid isErase allowFileErase d).eq_of_lt hfits
  have hwritten (hfits : set.byteLength < 2 ^ 64) :=
    (Compiled.agrees_write (b := b) hset.valid (Bytes.zeros set.byteLength) d).eq_of_lt hfits
  refine ⟨fun hfits => ⟨fun hwrites hlimit isErase allowFileErase hallowed => ?_, ?_⟩, ?_⟩
  · obtain ⟨d₁, hclear⟩ := cleared_of_reliable hwrites hlimit
    have hzero := (outcome_zero_file hallowed set hfile).trans hclear
    have hstarts : ∀ r ∈ set.ranges, r.byteStart < Device.offsetLimit := fun r hr =>
      Nat.lt_of_lt_of_le
        (Nat.lt_add_of_pos_right (BlockRange.byteLength_pos (hset.sound.nonempty r hr)))
        (hlimit r hr)
    have hwrite := write_of_reliable hset.sound hdata hwrites hstarts
    refine ⟨d₁, _, ?_, ?_, hsame _ _ _ _ _ hzero hwrite⟩
    · rw [hzeros hfits, hzero]
      rfl
    · rw [hwritten hfits, hwrite]
      rfl
  · intro isErase allowFileErase n d₁ d₂ hzero hwrite
    rw [hzeros hfits] at hzero
    rw [hwritten hfits] at hwrite
    obtain ⟨hzeroed, rfl⟩ := Prod.mk.inj hzero
    obtain ⟨hcount, rfl⟩ := Prod.mk.inj hwrite
    exact hsame _ _ _ _ _ (Prod.ext (mapError_eq_ok.mp hzeroed) rfl)
      (Prod.ext (mapError_eq_ok.mp hcount) rfl)
  · rw [Compiled.zero, outcome_get_bind, hfile]
    rfl

/-- Ranges of two blocks and of one, one of them twice, behind a file of three bytes. -/
theorem zero_eq_write_overlapping :
    let set : BlockSet := ⟨[⟨1, 2⟩, ⟨2, 1⟩, ⟨1, 2⟩], 5⟩
    let d := Device.file (Bytes.replicate 3 1)
    Built set ∧ d.isBlockDevice = false ∧ set.byteLength < 2 ^ 64 ∧
      (∀ k, d.faults.write k = none) ∧
      (∀ r ∈ set.ranges, r.byteStart + r.byteLength ≤ Device.offsetLimit) ∧
      ∃ d₁ d₂, outcome (Compiled.zero .wrapping set true true) d = (.ok (), d₁) ∧
        outcome (Compiled.write .wrapping set (Bytes.zeros set.byteLength)) d =
          (.ok set.byteLength, d₂) ∧
        d₁.image = d₂.image := by
  intro set d
  have hset : Built set := .parse (by rfl : parse "6,1,3,2,3,1,3" = _)
  have hlimit : ∀ r ∈ set.ranges, r.byteStart + r.byteLength ≤ Device.offsetLimit := by
    simp [set, BlockRange.byteStart, BlockRange.byteLength, blockSize, Device.offsetLimit]
  have hfits : set.byteLength < 2 ^ 64 := by decide
  obtain ⟨hequal, -⟩ := (zero_eq_write (d := d) .wrapping hset rfl).1 hfits
  exact ⟨hset, rfl, hfits, fun _ => rfl, hlimit,
    hequal (fun _ => rfl) hlimit true true fun _ => rfl⟩

/-- **A run of nothing.** In a build that goes on with the lowest bits, the size of a set that is a
multiple of `2 ^ 64` is nothing there, and to fill the set never ends. -/
theorem zero_of_wrapped (hset : Built set) (hranges : set.ranges ≠ [])
    (hwrapped : set.byteLength % 2 ^ 64 = 0) (allowFileErase : Bool) (d : Device) :
    outcome (Compiled.zero .wrapping set false allowFileErase) d = (.error .endless, d) := by
  obtain ⟨r, rest, hcons⟩ := List.exists_cons_of_ne_nil hranges
  have hr : r.Valid := hset.valid.ranges r (hcons ▸ List.mem_cons_self)
  have hpos : 0 < r.byteLength :=
    BlockRange.byteLength_pos (hset.sound.nonempty r (hcons ▸ List.mem_cons_self))
  have hstuck : outcome (Compiled.zeroFrom .wrapping 0 r.byteStart r.byteLength 0) d =
      (.error .endless, d) := by
    rw [Compiled.zeroFrom, if_pos hpos, if_neg (Nat.lt_irrefl 0)]
    rfl
  have hclear : outcome (Compiled.clearRanges .wrapping 0 false set.ranges) d =
      (.error .endless, d) := by
    rw [hcons, Compiled.clearRanges, Compiled.extent_of_valid hr]
    exact outcome_bind_of_error hstuck _
  rw [Compiled.zero, outcome_get_bind, Compiled.byteLength_of_wrapped hwrapped]
  show outcome (Compiled.rename BlockError.os (Compiled.clearRanges .wrapping
    (min zeroRun 0) false set.ranges)) d = _
  rw [Nat.min_zero, Compiled.rename, Compiled.outcome_onPart, id_eq, hclear]
  rfl

/-- **The size of a set may be one too large**, and then a fill with zeros does not end, or, with
checks, it fails before anything is written. -/
theorem zero_quadrupled :
    parse quadrupledText = .ok quadrupled ∧ quadrupled.byteLength = 2 ^ 64 ∧
    outcome (Compiled.zero .wrapping quadrupled false false) (Device.file ByteArray.empty) =
      (.error .endless, Device.file ByteArray.empty) ∧
    outcome (Compiled.zero .checked quadrupled false false) (Device.file ByteArray.empty) =
      (.error .overflow, Device.file ByteArray.empty) := by
  have hlength := byteLength_quadrupled
  refine ⟨parse_quadrupled, hlength, ?_, ?_⟩
  · exact zero_of_wrapped (.parse parse_quadrupled) (by decide) (by rw [hlength]) false _
  · rw [Compiled.zero, outcome_get_bind, Compiled.byteLength, Compiled.size_of_le hlength.ge]
    rfl

end BlockSet

end BlockUpdate
