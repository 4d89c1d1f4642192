import BlockUpdate.Proofs.Commands
import BlockUpdate.Proofs.UniformBlocks
import BlockUpdate.Proofs.ZeroFill

/-!
# Commands on uniform blocks

What commands do on an image of uniform blocks, as far as it can be computed from the list of these
blocks.

- **`Command.makeTarget_uniform`**: a move.
- **`Command.writeNewData_uniform`**: new data that arrives in one piece.
- **`Command.clear_uniform`**: zeros.
- **`Command.stashBlocks_uniform`**: a stash.
-/

namespace BlockUpdate

open Bytes (uniform)

namespace BlockSet

/-- What is spread over a list keeps its length. -/
theorem length_spread {ranges : List BlockRange} {data fill : List UInt8}
    (hfits : ∀ r ∈ ranges, r.stop ≤ fill.length)
    (hdata : (ranges.map (·.count)).sum ≤ data.length) :
    (spread ranges data fill).length = fill.length := by
  induction ranges generalizing data fill with
  | nil => rfl
  | cons r rest ih =>
    rw [List.map_cons, List.sum_cons] at hdata
    have hr : r.start + r.count ≤ fill.length := hfits r List.mem_cons_self
    have hlength : (fill.take r.start ++ data.take r.count ++ fill.drop r.stop).length =
        fill.length := by
      simp [BlockRange.stop]
      omega
    rw [spread, ih (fun q hq => hlength ▸ hfits q (List.mem_cons_of_mem r hq)) (by simp; omega),
      hlength]

end BlockSet

namespace Source

/-- Blocks go to their locations in a buffer of blocks. -/
theorem scatterRanges_uniform {ranges : List BlockRange} {data buffer : List UInt8} (position : Nat)
    (hfits : ∀ r ∈ ranges, r.stop ≤ buffer.length)
    (hdata : position + (ranges.map (·.count)).sum ≤ data.length) :
    scatterRanges (uniform data) ranges (position * blockSize) (uniform buffer) =
      .ok (uniform (BlockSet.spread ranges (data.drop position) buffer)) := by
  induction ranges generalizing position buffer with
  | nil => rfl
  | cons r rest ih =>
    rw [List.map_cons, List.sum_cons] at hdata
    have hr : r.start + r.count ≤ buffer.length := hfits r List.mem_cons_self
    let piece := (data.drop position).take r.count
    have hpiece : piece.length = r.count := by simp [piece]; omega
    have hextract : (uniform data).extract (position * blockSize)
        (position * blockSize + r.byteLength) = uniform piece :=
      Bytes.extract_uniform data (by omega)
    have hover := Bytes.writeAt_uniform buffer piece r.start (by omega)
    rw [hpiece] at hover
    have hlength : (buffer.take r.start ++ piece ++ buffer.drop r.stop).length = buffer.length := by
      simp [hpiece, BlockRange.stop]
      omega
    have hrest := @ih (buffer.take r.start ++ piece ++ buffer.drop r.stop) (position + r.count)
      (fun q hq => hlength ▸ hfits q (List.mem_cons_of_mem r hq)) (by omega)
    refine scatterRanges_cons_eq_ok.mpr ⟨?_, ?_, ?_⟩
    · rw [Bytes.size_uniform, BlockRange.byteStart, BlockRange.byteLength, ← Nat.add_mul]
      exact Nat.mul_le_mul_right blockSize hr
    · rw [Bytes.size_uniform, BlockRange.byteLength, ← Nat.add_mul]
      exact Nat.mul_le_mul_right blockSize (by omega)
    · rw [hextract, BlockRange.byteStart, hover, BlockRange.byteLength, ← Nat.add_mul]
      rw [BlockSet.spread, List.drop_drop]
      exact hrest

/-- Blocks of the device go to their locations in the source. -/
theorem addDevice_uniform {c : Command} {d : Device} {range locations : BlockSet} {text : String}
    {fill buffer : List UInt8} (hread : range.readInto d = uniform fill)
    (htext : blockSetOf text = .ok locations) (htotal : locations.total = range.total)
    (hdata : locations.total ≤ fill.length) (hfits : ∀ r ∈ locations.ranges, r.stop ≤ buffer.length) :
    addDevice c d range (some text) (uniform buffer) =
      .ok (uniform (BlockSet.spread locations.ranges fill buffer), 2) := by
  have hscatter := scatterRanges_uniform 0 hfits
    (by rw [← (blockSetOf_eq_ok htext).total_eq]; omega : 0 + _ ≤ fill.length)
  rw [Nat.zero_mul] at hscatter
  rw [addDevice]
  refine except_bind_eq_ok.mpr ⟨locations, htext, ?_⟩
  rw [if_neg (not_not_intro htotal), hread]
  exact except_bind_eq_ok.mpr ⟨_, scatter_eq_ok.mpr hscatter, rfl⟩

end Source

namespace Command

variable {P : Primitives} {c : Command} {place : Place} {m m₁ : Machine} {fill data : List UInt8}
  (hhealthy : m.device.Healthy) (himage : m.device.image = uniform fill)
  (hlimit : fill.length * blockSize < Device.offsetLimit)

include hhealthy himage hlimit

/-- **New data** that arrives in one piece is spread over its target. -/
theorem writeNewData_uniform {set : BlockSet} (hlive : m.canWrite = true)
    (hset : c.blockSet 0 = .ok set) (hpos : 0 < set.total) (hdata : data.length = set.total)
    (hfits : ∀ r ∈ set.ranges, r.stop ≤ fill.length)
    (hfeed : m.newData = some (Feed.start ⟨[.bytes (uniform data)], none⟩)) :
    ∃ d' feed m', outcome (writeNewData c) m = (.ok (), m') ∧
      m' = { m with device := d', newData := some feed, written := m.written + set.total } ∧
      d'.Healthy ∧ d'.image = uniform (BlockSet.spread set.ranges data fill) := by
  have hsound := sound_of_blockSet hset
  have hsize : (uniform data).size = set.byteLength := by
    rw [Bytes.size_uniform, hdata, BlockSet.byteLength]
  obtain ⟨n, s, hfill, hd', himage'⟩ := Feed.fill_once hsound hhealthy
    (BlockSet.within_uniform himage hfits)
    (by rw [himage, Bytes.size_uniform]; exact Nat.le_of_lt hlimit) hsize
    (by rw [hsize]; exact Nat.mul_pos hpos blockSize_pos)
  refine ⟨s.writing.device, s.feed, _, ?_, rfl, hd', ?_⟩
  · have hwrites : outcome (fillFromNewData set) m =
        (.ok (), { m with device := s.writing.device, newData := some s.feed }) := by
      rw [outcome_fillFromNewData hlive hfeed, Feed.feeding, hfill]
      rfl
    rw [writeNewData, outcome_bind_of_ok (ofCommand_eq_ok.mpr ⟨hset, rfl⟩),
      outcome_bind_of_ok hwrites]
    rfl
  · rw [himage', himage, BlockSet.laid_uniform hfits
      (Nat.le_of_eq (hdata.trans hsound.total_eq).symm)]

/-- **Zeros** take the place of what is in the target of a fill. -/
theorem clear_uniform {set : BlockSet} (hlive : m.canWrite = true)
    (hfile : m.device.isBlockDevice = false) (hverb : c.verb = .zero)
    (hset : c.blockSet 0 = .ok set) (hfits : ∀ r ∈ set.ranges, r.stop ≤ fill.length) :
    ∃ m', outcome c.clear m = (.ok (), m') ∧ m'.device.image =
      uniform (BlockSet.spread set.ranges (List.replicate set.total 0) fill) := by
  have hsound := sound_of_blockSet hset
  have hin := BlockSet.within_uniform himage hfits
  have hlast : ∀ r ∈ set.ranges, r.byteStart + r.byteLength ≤ Device.offsetLimit := by
    intro r hr
    have hstop := hin r hr
    rw [himage, Bytes.size_uniform] at hstop
    omega
  obtain ⟨d', hclear⟩ := BlockSet.cleared_of_reliable (d := m.device)
    (by rw [hhealthy.1]; exact fun _ => rfl) hlast
  -- a buffer of zeros leaves the same
  have hzeros : set.total ≤ (List.replicate set.total (0 : UInt8)).length := by
    rw [List.length_replicate]
  obtain ⟨n, d'', hwrite, -, himage'⟩ :=
    BlockSet.write_uniform hhealthy himage hlimit hfits hsound hzeros
  rw [← Bytes.zeros_eq_uniform] at hwrite
  obtain ⟨-, -, rfl⟩ := BlockSet.write_eq_ok hsound (by rw [Bytes.size_zeros]; rfl) hwrite
  refine ⟨{ m with device := d', written := m.written + set.total }, ?_,
    (BlockSet.image_cleared hsound hclear).trans himage'⟩
  have hzero : outcome (set.zero false m.allowFileErase) m.device = (.ok (), d') :=
    (BlockSet.outcome_zero_file (absurd · Bool.false_ne_true) set hfile).trans hclear
  have hwrites : outcome (Machine.onDevice (set.zero (Verb.zero == .erase) m.allowFileErase)) m =
      (.ok (), { m with device := d' }) := machineOnDevice_eq_ok.mpr ⟨d', hzero, rfl⟩
  rw [clear, outcome_bind_of_ok (ofCommand_eq_ok.mpr ⟨hset, rfl⟩), outcome_get_bind,
    if_pos hlive, outcome_get_bind, hverb, outcome_bind_of_ok hwrites]
  rfl

/-- **A move** spreads its source over the target. -/
theorem applyRecipe_uniform {r : Recipe} {s : Source} (hmove : c.isMove = true)
    (hr : c.recipe = .ok r) (hfits : ∀ q ∈ r.target.ranges, q.stop ≤ fill.length)
    (hdata : s.data = uniform data) (hsize : r.target.total ≤ data.length)
    (hkeep : outcome (keepSource r s) m = (.ok (), m₁)) (hdevice : m₁.device = m.device)
    (hsited : m₁.stash.Sited m₁.files place)
    (hfile : m₁.files.get? (place ++ [r.sourceHash]) ≠ some .directory)
    (hverify : Checksum.verify P
      (uniform (BlockSet.pick r.target.ranges (BlockSet.spread r.target.ranges data fill)))
      r.target.total r.targetHash = true) :
    ∃ m', outcome (applyRecipe P c r s) m = (.ok (), m') ∧ m'.device.Healthy ∧
      m'.device.image = uniform (BlockSet.spread r.target.ranges data fill) := by
  have hsound := sound_of_blockSet (blockSet_of_recipe hr)
  have hhealthy₁ : m₁.device.Healthy := hdevice ▸ hhealthy
  obtain ⟨n, d', hwrite, hd', himage'⟩ :=
    BlockSet.write_uniform hhealthy₁ (hdevice ▸ himage) hlimit hfits hsound hsize
  let m₂ : Machine := { m₁ with device := d' }
  have hsync : outcome (Machine.onDevice (DeviceM.sync.mapError BlockError.os)) m₂ =
      (.ok (), m₂) := by
    refine machineOnDevice_eq_ok.mpr ⟨d', ?_, rfl⟩
    rw [outcome_deviceMapError]
    show ((d'.sync).mapError BlockError.os, d') = _
    rw [Device.sync, hd'.1]
    rfl
  have hwrites : outcome (writeTarget P c r s.data) m₁ = (.ok (), m₂) := by
    rw [writeTarget, if_pos hmove, hdata]
    show outcome (Machine.onDevice (r.target.write (uniform data)) >>= fun _ =>
      Machine.onDevice (DeviceM.sync.mapError .os)) m₁ = _
    rw [outcome_bind_of_ok (machineOnDevice_eq_ok.mpr ⟨d', hwrite, rfl⟩), hsync]
  have hlength := BlockSet.length_spread hfits (hsound.total_eq ▸ hsize)
  have hback := BlockSet.readInto_of_read? hsound <| BlockSet.read?_uniform hd' himage'
    (by rwa [hlength]) fun q hq => hlength ▸ hfits q hq
  obtain ⟨m', hdrops⟩ := Machine.exists_drops (m := m₂) hfile
  refine ⟨m', applyRecipe_eq_ok.mpr ⟨m₁, m₂, hkeep, hwrites, ?_, ?_⟩, ?_⟩
  · rw [hback]
    exact hverify
  · exact (dropSource_eq_ok (m := m₂) hsited).mpr hdrops
  · rw [hdrops.device]
    exact ⟨hd', himage'⟩

omit himage hlimit

/-- A source that is just a range of the device. -/
theorem load_uniform {position : Nat} {first : String} (range : BlockSet)
    (himage : m.device.image = uniform fill)
    (hlimit : fill.length * blockSize < Device.offsetLimit)
    (hblocks : c.number position = .ok range.total) (hfirst : c.arg (position + 1) = .ok first)
    (hdash : first ≠ "-") (hrange : Source.blockSetOf first = .ok range)
    (hargs : c.args.length = position + 2) (hfits : ∀ q ∈ range.ranges, q.stop ≤ fill.length) :
    Source.load c position m.device m.stash m.files =
      .ok ⟨uniform (BlockSet.pick range.ranges fill), range.total, some range⟩ := by
  have hsound := Source.blockSetOf_eq_ok hrange
  have hread := BlockSet.read?_uniform hhealthy himage hlimit hfits
  have hsize := BlockSet.size_of_read? hsound hread
  refine Source.load_eq_ok.mpr ⟨_, _, hblocks, hfirst, .inr ⟨hdash, range,
    ((Bytes.zeros (range.total * blockSize)).writeAt 0 (range.readInto m.device), 1), _, rfl,
    hrange, Nat.le_refl _, ?_, ?_⟩⟩
  · rw [List.getElem?_eq_none (by omega)]
    rfl
  · have hpieces : Source.pieces c position = [] := by
      rw [Source.pieces]
      split_ifs <;> exact List.drop_eq_nil_of_le (by omega)
    rw [hpieces, BlockSet.readInto_of_read? hsound hread]
    refine congrArg Except.ok (Bytes.ext_byte ?_ fun i => ?_)
    · rw [Bytes.size_writeAt, Bytes.size_zeros, hsize, BlockSet.byteLength]
      omega
    · rw [Bytes.byte_writeAt, Nat.zero_add, Nat.sub_zero]
      split_ifs with hi
      · rfl
      · rw [Bytes.byte_zeros, Bytes.byte_of_le (by omega)]

/-- A move whose source is a range of the device that it leaves alone. -/
theorem makeTarget_uniform {r : Recipe} {first : String} (range : BlockSet)
    (himage : m.device.image = uniform fill)
    (hlimit : fill.length * blockSize < Device.offsetLimit) (hlive : m.canWrite = true)
    (hsited : m.stash.Sited m.files place) (hmove : c.isMove = true) (hr : c.recipe = .ok r)
    (hfits : ∀ q ∈ r.target.ranges, q.stop ≤ fill.length)
    (hstale : Checksum.verify P (uniform (BlockSet.pick r.target.ranges fill)) r.target.total
      r.targetHash = false)
    (hblocks : c.number r.sourcePosition = .ok range.total)
    (hfirst : c.arg (r.sourcePosition + 1) = .ok first) (hdash : first ≠ "-")
    (hrange : Source.blockSetOf first = .ok range) (hargs : c.args.length = r.sourcePosition + 2)
    (hwithin : ∀ q ∈ range.ranges, q.stop ≤ fill.length)
    (hsource : Checksum.verify P (uniform (BlockSet.pick range.ranges fill)) range.total
      r.sourceHash = true)
    (happart : range.overlaps r.target = false)
    (hsize : r.target.total ≤ (BlockSet.pick range.ranges fill).length)
    (hfile : m.files.get? (place ++ [r.sourceHash]) ≠ some .directory)
    (hverify : Checksum.verify P (uniform (BlockSet.pick r.target.ranges
      (BlockSet.spread r.target.ranges (BlockSet.pick range.ranges fill) fill))) r.target.total
      r.targetHash = true) :
    ∃ m', outcome (makeTarget P c) m = (.ok (), m') ∧ m'.device.Healthy ∧ m'.device.image =
      uniform (BlockSet.spread r.target.ranges (BlockSet.pick range.ranges fill) fill) := by
  have hneeds : Needs P c m r :=
    ⟨hr, _, BlockSet.read?_uniform hhealthy himage hlimit hfits, hstale⟩
  let s : Source := ⟨uniform (BlockSet.pick range.ranges fill), range.total, some range⟩
  have hloads : c.source P r m = .ok s := source_eq_ok.mpr
    ⟨s, load_uniform hhealthy range himage hlimit hblocks hfirst hdash hrange hargs hwithin,
      .inl ⟨hsource, rfl⟩⟩
  -- the source is not kept, because nothing of it is overwritten
  have hkeep : outcome (keepSource r s) m = (.ok (), m) := by
    refine (keepSource_eq_ok hsited).mpr (.inr ⟨?_, rfl⟩)
    rintro ⟨set, hset, hoverlaps, -⟩
    obtain rfl := Option.some.inj hset
    exact Bool.false_ne_true (happart.symm.trans hoverlaps)
  obtain ⟨m', hrun, hhealthy', himage'⟩ := applyRecipe_uniform hhealthy himage hlimit hmove hr hfits
    rfl hsize hkeep rfl hsited hfile hverify
  refine ⟨{ m' with written := m'.written + r.target.total }, ?_, hhealthy', himage'⟩
  rw [makeTarget_of_needs hlive hneeds hloads, outcome_bind_of_ok hrun]
  rfl

include himage hlimit in
/-- **A stash** keeps what it picks. -/
theorem stashBlocks_uniform (hlive : m.canWrite = true) (hsited : m.stash.Sited m.files place)
    {id : String} {set : BlockSet} (hid : c.arg 0 = .ok id) (hset : c.blockSet 1 = .ok set)
    (hfits : ∀ q ∈ set.ranges, q.stop ≤ fill.length)
    (hnew : m.files.get? (place ++ [id]) = none) (hroom : m.HasRoom set.total)
    (hstorable : Stash.Storable m.files place id)
    (hverify : Checksum.verify P (uniform (BlockSet.pick set.ranges fill)) set.total id = true) :
    outcome (stashBlocks P c) m =
      (.ok (), m.keeping place id set.total (uniform (BlockSet.pick set.ranges fill))) := by
  refine (stashBlocks_eq_ok hlive hsited).mpr ⟨id, set, hid, hset, .inr ⟨?_, _,
    BlockSet.read?_uniform hhealthy himage hlimit hfits, hverify, hroom, hstorable, rfl⟩⟩
  rw [(Stash.entrySize?_eq_none hsited).mpr (.inr hnew)]
  exact nofun

include himage hlimit in
/-- A stash that may hold no more entries refuses one. -/
theorem stashBlocks_full (hsited : m.stash.Sited m.files place) {id : String} {set : BlockSet}
    (hid : c.arg 0 = .ok id) (hset : c.blockSet 1 = .ok set)
    (hfits : ∀ q ∈ set.ranges, q.stop ≤ fill.length)
    (hnew : m.files.get? (place ++ [id]) = none)
    (hfull : Machine.exceeds (m.stashedEntries + 1) m.header.maxStashEntries = true)
    (hverify : Checksum.verify P (uniform (BlockSet.pick set.ranges fill)) set.total id = true) :
    ∃ e m', outcome (stashBlocks P c) m = (.error e, m') ∧ e.IsLimit := by
  refine ⟨.tooManyEntries (m.stashedEntries + 1) m.header.maxStashEntries, m, ?_, trivial⟩
  have hnone : m.stash.entrySize? m.files id ≠ some set.byteLength := by
    rw [(Stash.entrySize?_eq_none hsited).mpr (.inr hnew)]
    exact nofun
  have hreserve : outcome (Machine.reserve set.total) m =
      (.error (.tooManyEntries (m.stashedEntries + 1) m.header.maxStashEntries), m) := by
    rw [Machine.reserve, outcome_get_bind]
    simp only
    rw [if_pos hfull]
    rfl
  rw [stashBlocks, outcome_bind_of_ok (ofCommand_eq_ok.mpr ⟨hid, rfl⟩),
    outcome_bind_of_ok (ofCommand_eq_ok.mpr ⟨hset, rfl⟩), outcome_get_bind, if_pos hnone,
    BlockSet.read?_uniform hhealthy himage hlimit hfits]
  simp only
  rw [if_pos hverify, outcome_bind_of_error hreserve]

end Command

end BlockUpdate
