import BlockUpdate.Proofs.Plan

/-!
# What a read depends on

- `Device.SameReads`, `Device.ReadsAlike`: devices that answer every read and every discard alike.
- **`readInto_congr`**: a read depends on the size of the image and on the bytes of its own set.
- **`byte_eq_of_read?_eq`**, **`read?_eq_of_byte_eq`**: what is read and those bytes determine each
  other.
- `size_readInto`, `size_of_read?`: a read is as long as its set.
-/

namespace BlockUpdate

namespace Bytes

/-- A prefix that is long enough is everything. -/
theorem takeFirst_of_size_le {b : Bytes} {n : Nat} (h : b.size ≤ n) : b.takeFirst n = b := by
  have hsize : (b.takeFirst n).size = b.size := by
    rw [size_takeFirst]
    omega
  refine ext_byte hsize fun i => ?_
  rw [takeFirst, byte_extract]
  split
  · rw [Nat.zero_add]
  · rw [byte_of_le (by omega)]

/-- Windows of strings that agree in size and on the window are equal. -/
theorem extract_congr {a b : Bytes} (hsize : a.size = b.size) {start stop : Nat}
    (h : ∀ i, start ≤ i → i < stop → a.byte i = b.byte i) :
    a.extract start stop = b.extract start stop := by
  refine ext_byte (by rw [ByteArray.size_extract, ByteArray.size_extract, hsize]) fun k => ?_
  rw [byte_extract, byte_extract, hsize]
  split
  · exact h _ (by omega) (by omega)
  · rfl

end Bytes

namespace Device

/-- Devices that answer every read alike, and every discard. -/
structure SameReads (d d' : Device) : Prop where
  image : d'.image = d.image
  endless : d'.endless = d.endless
  faults : d'.faults = d.faults
  discards : d'.discards = d.discards

/-- Devices that answer every read alike, and every discard, whatever becomes of writes and syncs. -/
structure ReadsAlike (d d' : Device) : Prop where
  image : d'.image = d.image
  endless : d'.endless = d.endless
  faults : d'.faults.read = d.faults.read
  discards : d'.discards = d.discards

theorem SameReads.refl (d : Device) : SameReads d d := ⟨rfl, rfl, rfl, rfl⟩

theorem SameReads.alike {d d' : Device} (h : SameReads d d') : ReadsAlike d d' :=
  ⟨h.image, h.endless, congrArg Faults.read h.faults, h.discards⟩

theorem ReadsAlike.refl (d : Device) : ReadsAlike d d := ⟨rfl, rfl, rfl, rfl⟩

theorem ReadsAlike.readable {d d' : Device} (h : ReadsAlike d d') (start len : Nat) :
    d'.readable start len = d.readable start len := by
  rw [Device.readable, Device.readable, h.image, h.endless, h.faults]

/-- The same writes on devices that answer reads alike. -/
theorem SameReads.after {d d' : Device} (h : SameReads d d') (ws : List Write) :
    SameReads (d.after ws) (d'.after ws) :=
  ⟨by rw [after_image, after_image, h.image], h.endless, h.faults, h.discards⟩

/-- To repeat writes makes no difference to reads. -/
theorem SameReads.after_again {d d' : Device} {ws : List Write} (h : SameReads (d.after ws) d') :
    SameReads (d.after ws) (d'.after ws) :=
  ⟨by rw [after_image, h.image, after_image, Bytes.overwrite_overwrite], h.endless, h.faults,
    h.discards⟩

theorem SameReads.healthy {d d' : Device} (h : SameReads d d') (hd : d.Healthy) : d'.Healthy :=
  ⟨h.faults.trans hd.1, h.endless.trans hd.2⟩

/-- A read never delivers more than was asked for. -/
theorem size_readable_le (d : Device) (start len : Nat) : (d.readable start len).size ≤ len := by
  have hfound : (d.image.extract start (start + len)).size ≤ len := by
    rw [ByteArray.size_extract]
    omega
  rw [Device.readable]
  split
  · exact Nat.zero_le _
  · split
    · exact Nat.zero_le _
    · show (if d.endless = true then _ else _ : Bytes).size ≤ len
      split
      · rw [Bytes.size_padTo]
        omega
      · exact hfound

/-- What a regular file without faults delivers. -/
theorem readable_of_healthy {d : Device} (h : d.Healthy) (start len : Nat) :
    d.readable start len =
      if offsetLimit ≤ start then ByteArray.empty else d.image.extract start (start + len) := by
  rw [Device.readable, h.1, h.2]
  rfl

/-- A read that delivers all that was asked for delivers a part of the image. -/
theorem readable_of_size {d : Device} (hd : d.endless = false) {start len : Nat}
    (h : (d.readable start len).size = len) (hlen : 0 < len) :
    d.readable start len = d.image.extract start (start + len) ∧ start + len ≤ d.image.size := by
  have hempty : ByteArray.empty.size = 0 := rfl
  rw [readable, hd] at h ⊢
  by_cases hlimit : offsetLimit ≤ start
  · rw [if_pos hlimit] at h
    omega
  · rw [if_neg hlimit] at h ⊢
    rcases hfault : d.faults.read start with _ | e
    · simp only [hfault, Bool.false_eq_true, if_false, ByteArray.size_extract] at h ⊢
      exact ⟨trivial, by omega⟩
    · simp only [hfault] at h
      omega

theorem byte_readable {d : Device} (hd : d.endless = false) {start len i : Nat}
    (h : (d.readable start len).size = len) (hstart : start ≤ i) (hstop : i < start + len) :
    (d.readable start len).byte (i - start) = d.image.byte i := by
  obtain ⟨hread, hsize⟩ := readable_of_size hd h (by omega)
  rw [hread, Bytes.byte_extract, if_pos (by omega)]
  congr 1
  omega

end Device

namespace BlockSet

/-! ## Ranges -/

theorem readRanges_alike {d d' : Device} (h : d.ReadsAlike d') (ranges : List BlockRange)
    (out : Bytes) : readRanges d' ranges out = readRanges d ranges out := by
  induction ranges generalizing out with
  | nil => rfl
  | cons r rest ih => simp only [readRanges, h.readable, ih]

/-- Reads agree where the images do. -/
theorem readRanges_congr {d d' : Device} (hd : d.Healthy) (hd' : d'.Healthy)
    (hsize : d'.image.size = d.image.size) {ranges : List BlockRange}
    (h : ∀ i, InRanges ranges i → d'.image.byte i = d.image.byte i) (out : Bytes) :
    readRanges d' ranges out = readRanges d ranges out := by
  induction ranges generalizing out with
  | nil => rfl
  | cons r rest ih =>
    have hread : d'.readable r.byteStart r.byteLength = d.readable r.byteStart r.byteLength := by
      rw [Device.readable_of_healthy hd, Device.readable_of_healthy hd']
      split
      · rfl
      · exact Bytes.extract_congr hsize fun i h₁ h₂ => h i ((inRanges_cons r rest i).mpr (.inl ⟨h₁, h₂⟩))
    simp only [readRanges, hread, ih fun i hi => h i ((inRanges_cons r rest i).mpr (.inr hi))]

/-- A read extends what was read before. -/
theorem byte_readRanges_of_lt {d : Device} (ranges : List BlockRange) (out : Bytes) {i : Nat}
    (h : i < out.size) : (readRanges d ranges out).1.byte i = out.byte i := by
  induction ranges generalizing out with
  | nil => rfl
  | cons r rest ih =>
    have happend : ∀ found : Bytes, (out ++ found).byte i = out.byte i := fun found => by
      rw [Bytes.byte_append, if_pos h]
    rw [readRanges]
    split
    · rw [ih _ (by rw [ByteArray.size_append]; omega), happend]
    · exact happend _

/-- A read never delivers more than was asked for, and all of it if no range stopped it. -/
theorem size_readRanges {d : Device} (ranges : List BlockRange) (out : Bytes) :
    (readRanges d ranges out).1.size ≤ out.size + rangesLength ranges ∧
      ((readRanges d ranges out).2 = true →
        (readRanges d ranges out).1.size = out.size + rangesLength ranges) := by
  induction ranges generalizing out with
  | nil => simp [readRanges]
  | cons r rest ih =>
    rw [readRanges]
    split
    · rename_i hfull
      have := ih (out ++ d.readable r.byteStart r.byteLength)
      rw [ByteArray.size_append, hfull] at this
      rw [rangesLength_cons, ← Nat.add_assoc]
      exact this
    · have := d.size_readable_le r.byteStart r.byteLength
      refine ⟨?_, fun h => by cases h⟩
      rw [ByteArray.size_append, rangesLength_cons]
      omega

/-- Reads of the same data found the same bytes. -/
theorem byte_eq_of_readRanges_eq {d d' : Device} (hd : d.endless = false)
    (hd' : d'.endless = false) (ranges : List BlockRange) {out data : Bytes}
    (h : readRanges d ranges out = (data, true)) (h' : readRanges d' ranges out = (data, true))
    {i : Nat} (hi : InRanges ranges i) : d'.image.byte i = d.image.byte i := by
  induction ranges generalizing out with
  | nil => exact absurd hi (not_inRanges_nil i)
  | cons r rest ih =>
    rw [readRanges] at h h'
    split at h
    case isFalse => cases h
    case isTrue hfull =>
    split at h'
    case isFalse => cases h'
    case isTrue hfull' =>
    -- both pieces are the same part of the data
    have hsame : d'.readable r.byteStart r.byteLength = d.readable r.byteStart r.byteLength := by
      refine Bytes.ext_byte (hfull'.trans hfull.symm) fun k => ?_
      by_cases hk : k < r.byteLength
      · have key : ∀ {e : Device}, (e.readable r.byteStart r.byteLength).size = r.byteLength →
            readRanges e rest (out ++ e.readable r.byteStart r.byteLength) = (data, true) →
            data.byte (out.size + k) = (e.readable r.byteStart r.byteLength).byte k := by
          intro e hsize he
          have hbyte := byte_readRanges_of_lt (d := e) rest
            (out ++ e.readable r.byteStart r.byteLength) (i := out.size + k)
            (by rw [ByteArray.size_append, hsize]; omega)
          rw [he, Bytes.byte_append, if_neg (by omega), Nat.add_sub_cancel_left] at hbyte
          exact hbyte
        rw [← key hfull' h', ← key hfull h]
      · rw [Bytes.byte_of_le (by omega), Bytes.byte_of_le (by omega)]
    rcases (inRanges_cons r rest i).mp hi with hi | hi
    · rw [← Device.byte_readable hd hfull hi.1 hi.2, ← Device.byte_readable hd' hfull' hi.1 hi.2,
        hsame]
    · rw [hsame] at h'
      exact ih h h' hi

/-- Where the bytes are the same, what is read is. -/
theorem readRanges_eq_of_byte_eq {d d' : Device} (hd : d.endless = false)
    (hd' : d'.endless = false) (ranges : List BlockRange) {out data data' : Bytes}
    (h : readRanges d ranges out = (data, true)) (h' : readRanges d' ranges out = (data', true))
    (hbytes : ∀ i, InRanges ranges i → d'.image.byte i = d.image.byte i) : data' = data := by
  induction ranges generalizing out with
  | nil => exact (congrArg Prod.fst (h.symm.trans h')).symm
  | cons r rest ih =>
    rw [readRanges] at h h'
    split at h
    case isFalse => cases h
    case isTrue hfull =>
    split at h'
    case isFalse => cases h'
    case isTrue hfull' =>
    have hsame : d'.readable r.byteStart r.byteLength = d.readable r.byteStart r.byteLength := by
      refine Bytes.ext_byte (hfull'.trans hfull.symm) fun k => ?_
      by_cases hk : k < r.byteLength
      · have hbyte := hbytes (r.byteStart + k)
          ((inRanges_cons r rest _).mpr (.inl ⟨by omega, by omega⟩))
        rw [← Device.byte_readable hd hfull (by omega) (by omega),
          ← Device.byte_readable hd' hfull' (by omega) (by omega), Nat.add_sub_cancel_left] at hbyte
        exact hbyte
      · rw [Bytes.byte_of_le (by omega), Bytes.byte_of_le (by omega)]
    rw [hsame] at h'
    exact ih h h' fun i hi => hbytes i ((inRanges_cons r rest i).mpr (.inr hi))

/-- What can be read is within the image. -/
theorem lt_size_of_readRanges {d : Device} (hd : d.endless = false) (ranges : List BlockRange)
    {out data : Bytes} (h : readRanges d ranges out = (data, true)) {i : Nat}
    (hi : InRanges ranges i) : i < d.image.size := by
  induction ranges generalizing out with
  | nil => exact absurd hi (not_inRanges_nil i)
  | cons r rest ih =>
    rw [readRanges] at h
    split at h
    case isFalse => cases h
    case isTrue hfull =>
    rcases (inRanges_cons r rest i).mp hi with ⟨hstart, hstop⟩ | hi
    · have := (Device.readable_of_size hd hfull (by omega)).2
      omega
    · exact ih h hi

section Larger

variable {d d' : Device}
  (hfaults : ∀ start, d.faults.read start = none → d'.faults.read start = none)
  (hendless : d'.endless = d.endless) (hsize : d.image.size ≤ d'.image.size)

include hfaults hendless hsize

/-- A larger image delivers whatever a smaller one does. -/
theorem size_readable_of_size_le {start len : Nat} (h : (d.readable start len).size = len) :
    (d'.readable start len).size = len := by
  have hle := d'.size_readable_le start len
  rw [Device.readable] at h
  by_cases hlimit : Device.offsetLimit ≤ start
  · rw [if_pos hlimit] at h
    have hempty : ByteArray.empty.size = 0 := rfl
    omega
  rw [if_neg hlimit] at h
  rcases hread : d.faults.read start with _ | e <;> rw [hread] at h
  · rw [Device.readable, if_neg hlimit, hfaults start hread, hendless]
    simp only at h ⊢
    split_ifs at h ⊢
    · rw [Bytes.size_padTo, ByteArray.size_extract]
      omega
    · rw [ByteArray.size_extract] at h ⊢
      omega
  · have hempty : ByteArray.empty.size = len := h
    rw [ByteArray.size_empty] at hempty
    omega

theorem readRanges_of_size_le (ranges : List BlockRange) (out out' : Bytes)
    (h : (readRanges d ranges out).2 = true) : (readRanges d' ranges out').2 = true := by
  induction ranges generalizing out out' with
  | nil => rfl
  | cons r rest ih =>
    rw [readRanges] at h ⊢
    split at h
    case isFalse => cases h
    case isTrue hfull =>
    rw [if_pos (size_readable_of_size_le hfaults hendless hsize hfull)]
    exact ih _ _ h

end Larger

/-! ## Sets -/

section Sets

variable {set : BlockSet} {d d' : Device}

theorem read?_eq_some {data : Bytes} :
    set.read? d = some data ↔ readRanges d set.ranges ByteArray.empty = (data, true) := by
  rw [read?]
  rcases readRanges d set.ranges ByteArray.empty with ⟨found, _ | _⟩ <;> simp

theorem read?_alike (h : d.ReadsAlike d') : set.read? d' = set.read? d := by
  rw [read?, read?, readRanges_alike h]

theorem read?_sameReads (h : d.SameReads d') : set.read? d' = set.read? d := read?_alike h.alike

theorem readInto_alike (h : d.ReadsAlike d') : set.readInto d' = set.readInto d := by
  rw [readInto, readInto, readRanges_alike h]

theorem readInto_sameReads (h : d.SameReads d') : set.readInto d' = set.readInto d :=
  readInto_alike h.alike

/-- **What an attempt to read leaves** depends on the bytes of the set. -/
theorem readInto_congr (hd : d.Healthy) (hd' : d'.Healthy)
    (hsize : d'.image.size = d.image.size)
    (h : ∀ i, set.HasByte i → d'.image.byte i = d.image.byte i) :
    set.readInto d' = set.readInto d := by
  rw [readInto, readInto, readRanges_congr hd hd' hsize h]

/-- **What was read determines the bytes of the set.** -/
theorem byte_eq_of_read?_eq (hd : d.endless = false) (hd' : d'.endless = false) {data : Bytes}
    (h : set.read? d = some data) (h' : set.read? d' = some data) {i : Nat}
    (hi : set.HasByte i) : d'.image.byte i = d.image.byte i :=
  byte_eq_of_readRanges_eq hd hd' set.ranges (read?_eq_some.mp h) (read?_eq_some.mp h') hi

/-- A set that can be read is within the image. -/
theorem lt_size_of_read? (hd : d.endless = false) {data : Bytes} (h : set.read? d = some data)
    {i : Nat} (hi : set.HasByte i) : i < d.image.size :=
  lt_size_of_readRanges hd set.ranges (read?_eq_some.mp h) hi

/-- **The bytes of the set determine what is read.** -/
theorem read?_eq_of_byte_eq (hd : d.endless = false) (hd' : d'.endless = false)
    {data data' : Bytes} (h : set.read? d = some data) (h' : set.read? d' = some data')
    (hbytes : ∀ i, set.HasByte i → d'.image.byte i = d.image.byte i) : data' = data :=
  readRanges_eq_of_byte_eq hd hd' set.ranges (read?_eq_some.mp h) (read?_eq_some.mp h') hbytes

/-- **A larger image can be read wherever a smaller one can**, unless it has faults of its own. -/
theorem read?_of_size_le (hfaults : ∀ start, d.faults.read start = none → d'.faults.read start = none)
    (hendless : d'.endless = d.endless) (hsize : d.image.size ≤ d'.image.size) {data : Bytes}
    (h : set.read? d = some data) : ∃ data', set.read? d' = some data' := by
  have hok : (readRanges d set.ranges ByteArray.empty).2 = true := by
    rw [read?_eq_some.mp h]
  have hok' := readRanges_of_size_le hfaults hendless hsize set.ranges ByteArray.empty
    ByteArray.empty hok
  exact ⟨(readRanges d' set.ranges ByteArray.empty).1, read?_eq_some.mpr (Prod.ext rfl hok')⟩

theorem size_of_read? (hset : set.Sound) {data : Bytes} (h : set.read? d = some data) :
    data.size = set.byteLength := by
  have hsize := (size_readRanges (d := d) set.ranges ByteArray.empty).2
  rw [read?_eq_some.mp h] at hsize
  rw [hset.byteLength_eq, hsize rfl]
  exact Nat.zero_add _

/-- An attempt to read leaves what can be read. -/
theorem readInto_of_read? (hset : set.Sound) {data : Bytes} (h : set.read? d = some data) :
    set.readInto d = data := by
  rw [readInto, read?_eq_some.mp h, Bytes.padTo, if_neg]
  rw [size_of_read? hset h]
  exact Nat.lt_irrefl _

theorem size_readInto (hset : set.Sound) (d : Device) :
    (set.readInto d).size = set.byteLength := by
  have hsize := (size_readRanges (d := d) set.ranges ByteArray.empty).1
  have hempty : ByteArray.empty.size = 0 := rfl
  rw [readInto, Bytes.size_padTo, hset.byteLength_eq]
  omega

end Sets

end BlockSet

end BlockUpdate
