import BlockUpdate.Proofs.ReadBack
import BlockUpdate.Proofs.Sources
import BlockUpdate.Proofs.UniformCommands

/-!
# The blocks of a source

The arguments of a source assign blocks to positions in it: those of a range of the device, and
those of each piece that the stash holds with the size of its locations. Locations are ranges in any
order, which may overlap among themselves and with others. The last assignment to a position counts.

- `Bytes.block`: one block of a byte string.
- `BlockSet.positions`: the blocks of some ranges, in their order.
- `Source.lastAt`: the last of some assignments to a position.
- `Source.assignments`: those that the arguments of a source make.
- **`block_scatterRanges`**: scattering is assigning block by block.
- **`load_assigned`**: each block of a source is the last one assigned, and zeros where there is
  none; there is no source if an assignment is outside.
-/

namespace BlockUpdate

/-! ## Blocks -/

namespace Bytes

variable {a b : Bytes} {k n p start : Nat}

/-- One block of a byte string. -/
def block (b : Bytes) (k : Nat) : Bytes := b.extract (k * blockSize) (k * blockSize + blockSize)

/-- Blocks of a byte string in order. -/
def blocks (b : Bytes) (start count : Nat) : List Bytes := (List.range' start count).map b.block

theorem byte_block (b : Bytes) (k i : Nat) :
    (b.block k).byte i = if i < blockSize then b.byte (k * blockSize + i) else 0 := by
  rw [block, byte_extract]
  split_ifs <;> first | rfl | omega | exact (byte_of_le (by omega)).symm

theorem size_block (b : Bytes) (k : Nat) :
    (b.block k).size = min blockSize (b.size - k * blockSize) := by
  rw [block, ByteArray.size_extract]
  omega

/-- Blocks are equal if their bytes are. -/
theorem block_eq_block (ha : p * blockSize + blockSize ≤ a.size)
    (hb : k * blockSize + blockSize ≤ b.size)
    (h : ∀ i < blockSize, a.byte (p * blockSize + i) = b.byte (k * blockSize + i)) :
    a.block p = b.block k := by
  refine ext_byte ?_ fun i => ?_
  · rw [size_block, size_block]
    omega
  · rw [byte_block, byte_block]
    split_ifs with hi
    · exact h i hi
    · rfl

/-- The end of a block among others. -/
theorem blockEnd_le (h : k < n) : k * blockSize + blockSize ≤ n * blockSize := by
  rw [← Nat.succ_mul]
  exact Nat.mul_le_mul_right blockSize h

theorem block_zeros (h : k < n) : (zeros (n * blockSize)).block k = zeros blockSize := by
  have hend := blockEnd_le h
  refine ext_byte ?_ fun i => ?_
  · rw [size_block, size_zeros, size_zeros]
    omega
  · rw [byte_block, byte_zeros, byte_zeros, ite_self]

/-- A block of some blocks. -/
theorem block_extract (h : k < n) (hsize : start * blockSize + n * blockSize ≤ b.size) :
    block (b.extract (start * blockSize) (start * blockSize + n * blockSize)) k =
      b.block (start + k) := by
  have hend := blockEnd_le h
  refine block_eq_block ?_ ?_ fun i hi => ?_
  · rw [ByteArray.size_extract]
    omega
  · rw [Nat.add_mul]
    omega
  · rw [byte_extract, if_pos (by omega), Nat.add_mul, Nat.add_assoc]

theorem block_append_left (ha : a.size = n * blockSize) (h : k < n) :
    block (a ++ b) k = a.block k := by
  have hend := blockEnd_le h
  refine block_eq_block ?_ ?_ fun i hi => ?_
  · rw [ByteArray.size_append]
    omega
  · omega
  · rw [byte_append, if_pos (by omega)]

theorem block_append_right (ha : a.size = n * blockSize)
    (h : k * blockSize + blockSize ≤ b.size) : block (a ++ b) (n + k) = b.block k := by
  refine block_eq_block ?_ h fun i hi => ?_
  · rw [ByteArray.size_append, Nat.add_mul]
    omega
  · rw [byte_append, Nat.add_mul, if_neg (by omega)]
    congr 1
    omega

/-- Blocks that are written in a byte string. -/
theorem block_writeAt (ha : a.size = n * blockSize) (hp : p * blockSize + blockSize ≤ b.size) :
    (b.writeAt (start * blockSize) a).block p =
      if start ≤ p ∧ p < start + n then a.block (p - start) else b.block p := by
  have hsize : p * blockSize + blockSize ≤ (b.writeAt (start * blockSize) a).size := by
    rw [size_writeAt]
    omega
  by_cases hbefore : p < start
  · have hend := blockEnd_le hbefore
    rw [if_neg (by omega)]
    refine block_eq_block hsize hp fun i hi => ?_
    rw [byte_writeAt, if_neg (by omega)]
  · obtain ⟨k, rfl⟩ : ∃ k, p = start + k := ⟨p - start, by omega⟩
    have hstart : (start + k) * blockSize = start * blockSize + k * blockSize := Nat.add_mul ..
    rw [Nat.add_sub_cancel_left]
    by_cases hk : k < n
    · have hend := blockEnd_le hk
      rw [if_pos (by omega)]
      refine block_eq_block hsize (by omega) fun i hi => ?_
      rw [byte_writeAt, if_pos (by omega)]
      congr 1
      omega
    · have hbehind := Nat.mul_le_mul_right blockSize (Nat.le_of_not_lt hk)
      rw [if_neg (by omega)]
      refine block_eq_block hsize hp fun i hi => ?_
      rw [byte_writeAt, if_neg (by omega)]

end Bytes

namespace BlockSet

/-- The blocks of some ranges, in the order of the ranges. -/
def positions (ranges : List BlockRange) : List Nat :=
  ranges.flatMap fun r => List.range' r.start r.count

variable {ranges : List BlockRange}

@[simp] theorem positions_cons (r : BlockRange) (rest : List BlockRange) :
    positions (r :: rest) = List.range' r.start r.count ++ positions rest := rfl

theorem length_positions {set : BlockSet} (hset : set.Sound) :
    (positions set.ranges).length = set.total := by
  rw [hset.total_eq, positions, List.length_flatMap]
  simp only [List.length_range']

theorem rangesLength_eq (ranges : List BlockRange) :
    rangesLength ranges = (positions ranges).length * blockSize := by
  induction ranges with
  | nil => rfl
  | cons r rest ih =>
    rw [rangesLength_cons, ih, positions_cons, List.length_append, List.length_range', Nat.add_mul]
    rfl

theorem mem_positions {p : Nat} :
    p ∈ positions ranges ↔ ∃ r ∈ ranges, r.start ≤ p ∧ p < r.stop := by
  simp only [positions, List.mem_flatMap, List.mem_range'_1, BlockRange.stop]

/-- The bytes of some ranges are their blocks. -/
theorem blocks_contents {image : Bytes} (h : Within ranges image.size) :
    (contents ranges image).blocks 0 (positions ranges).length =
      (positions ranges).map image.block := by
  induction ranges with
  | nil => rfl
  | cons r rest ih =>
    have hr : r.start * blockSize + r.count * blockSize ≤ image.size := h r List.mem_cons_self
    have hrest : Within rest image.size := fun q hq => h q (List.mem_cons_of_mem r hq)
    have hsize : (image.extract r.byteStart (r.byteStart + r.byteLength)).size =
        r.count * blockSize := by
      rw [ByteArray.size_extract, BlockRange.byteStart, BlockRange.byteLength]
      omega
    have hfirst : ∀ k < r.count, Bytes.block (contents (r :: rest) image) k =
        image.block (r.start + k) := fun k hk => by
      rw [contents_cons, Bytes.block_append_left hsize hk]
      exact Bytes.block_extract hk hr
    have hbehind : ∀ k < (positions rest).length,
        Bytes.block (contents (r :: rest) image) (r.count + k) =
          (contents rest image).block k := fun k hk => by
      have hend := Bytes.blockEnd_le hk
      rw [contents_cons, Bytes.block_append_right hsize]
      rw [size_contents hrest, rangesLength_eq]
      exact hend
    rw [positions_cons, List.length_append, List.length_range', List.map_append, ← ih hrest,
      Bytes.blocks, Bytes.blocks, ← List.range'_append_1, List.map_append, Nat.zero_add]
    congr 1
    · refine List.ext_getElem (by simp) fun k hk _ => ?_
      simp only [List.length_map, List.length_range'] at hk
      simp only [List.getElem_map, List.getElem_range', Nat.zero_add, Nat.one_mul]
      exact hfirst k hk
    · refine List.ext_getElem (by simp) fun k hk _ => ?_
      simp only [List.length_map, List.length_range'] at hk
      simp only [List.getElem_map, List.getElem_range', Nat.zero_add, Nat.one_mul]
      exact hbehind k hk

/-- What was read of a device is the bytes of the ranges. -/
theorem eq_contents_of_readRanges {d : Device} (hendless : d.endless = false)
    (hpos : ∀ r ∈ ranges, 0 < r.count) {out data : Bytes}
    (h : readRanges d ranges out = (data, true)) :
    Within ranges d.image.size ∧ data = out ++ contents ranges d.image := by
  induction ranges generalizing out with
  | nil =>
    refine ⟨nofun, ?_⟩
    rw [contents_nil, ByteArray.append_empty]
    exact (congrArg Prod.fst h).symm
  | cons r rest ih =>
    rw [readRanges] at h
    split_ifs at h with hfull
    · obtain ⟨hread, hin⟩ := Device.readable_of_size hendless hfull
        (BlockRange.byteLength_pos (hpos r List.mem_cons_self))
      obtain ⟨hrest, hdata⟩ := ih (fun q hq => hpos q (List.mem_cons_of_mem r hq)) h
      refine ⟨fun q hq => ?_, ?_⟩
      · rcases List.mem_cons.mp hq with rfl | hq
        · exact hin
        · exact hrest q hq
      · rw [hdata, hread, contents_cons, ByteArray.append_assoc]
    · cases h

end BlockSet

/-! ## Assignments -/

namespace Source

open BlockSet (positions)

/-- Blocks, each with a position in a source. -/
abbrev Assignments := List (Nat × Bytes)

/-- The block of the last assignment to a position. -/
def lastAt (as : Assignments) (p : Nat) : Option Bytes := as.reverse.lookup p

theorem lastAt_append (as as' : Assignments) (p : Nat) :
    lastAt (as ++ as') p = (lastAt as' p).or (lastAt as p) := by
  rw [lastAt, List.reverse_append, List.lookup_append]
  rfl

theorem lastAt_cons (q : Nat) (b : Bytes) (as : Assignments) (p : Nat) :
    lastAt ((q, b) :: as) p = (lastAt as p).or (if p = q then some b else none) := by
  have hone : lastAt [(q, b)] p = if p = q then some b else none := by
    by_cases hpq : p = q
    · simp [lastAt, hpq]
    · have hne : (p == q) = false := beq_eq_false_iff_ne.mpr hpq
      simp [lastAt, List.lookup_cons, hne, hpq]
  rw [← List.singleton_append, lastAt_append, hone]

/-- Blocks in order are assigned to positions in order. -/
theorem lastAt_run (b : Bytes) (start k n p : Nat) :
    lastAt ((List.range' start n).zip (b.blocks k n)) p =
      if start ≤ p ∧ p < start + n then some (b.block (k + (p - start))) else none := by
  induction n generalizing start k with
  | zero =>
    rw [if_neg (by omega)]
    rfl
  | succ n ih =>
    rw [Bytes.blocks, List.range'_succ, List.range'_succ, List.map_cons, List.zip_cons_cons,
      lastAt_cons]
    rw [show (List.range' (k + 1) n).map b.block = b.blocks (k + 1) n from rfl, ih]
    by_cases hfirst : p = start
    · rw [if_neg (by omega), if_pos hfirst, if_pos (by omega), hfirst, Nat.sub_self]
      rfl
    · rw [if_neg hfirst, Option.or_none]
      by_cases hin : start + 1 ≤ p ∧ p < start + 1 + n
      · rw [if_pos hin, if_pos (by omega)]
        congr 2
        omega
      · rw [if_neg hin, if_neg (by omega)]

/-- **Scattering assigns block by block.** -/
theorem block_scatterRanges {data out : Bytes} {ranges : List BlockRange} {k : Nat}
    {buffer : Bytes} (h : scatterRanges data ranges (k * blockSize) buffer = .ok out) {p : Nat}
    (hp : p * blockSize + blockSize ≤ buffer.size) :
    out.block p = (lastAt ((positions ranges).zip (data.blocks k (positions ranges).length)) p).getD
      (buffer.block p) := by
  induction ranges generalizing k buffer with
  | nil => rw [← Except.ok.inj h]; rfl
  | cons r rest ih =>
    obtain ⟨hbuffer, hdata, h⟩ := scatterRanges_cons_eq_ok.mp h
    have hstop : k * blockSize + r.byteLength = (k + r.count) * blockSize := (Nat.add_mul ..).symm
    have hsplit : data.blocks k (r.count + (positions rest).length) =
        data.blocks k r.count ++ data.blocks (k + r.count) (positions rest).length := by
      rw [Bytes.blocks, ← List.range'_append_1, List.map_append]
      rfl
    have hwritten := @size_writeAt_extract data buffer r hbuffer (k * blockSize)
    have hpiece : (data.extract (k * blockSize) (k * blockSize + r.byteLength)).size =
        r.count * blockSize := by
      rw [ByteArray.size_extract]
      show _ = r.byteLength
      omega
    have hblock : ∀ j < r.count, Bytes.block
        (data.extract (k * blockSize) (k * blockSize + r.byteLength)) j = data.block (k + j) :=
      fun j hj => Bytes.block_extract hj hdata
    generalize data.extract (k * blockSize) (k * blockSize + r.byteLength) = piece at *
    rw [hstop] at h
    rw [BlockSet.positions_cons, List.length_append, List.length_range', hsplit, List.zip_append
      (by rw [List.length_range', Bytes.blocks, List.length_map, List.length_range']),
      lastAt_append, lastAt_run, ih h (by rw [hwritten]; exact hp)]
    rcases lastAt ((positions rest).zip (data.blocks (k + r.count) (positions rest).length)) p
      with _ | b
    · rw [Option.none_or, Option.getD_none, BlockRange.byteStart, Bytes.block_writeAt hpiece hp]
      by_cases hin : r.start ≤ p ∧ p < r.start + r.count
      · rw [if_pos hin, if_pos hin, hblock _ (by omega), Option.getD_some]
      · rw [if_neg hin, if_neg hin, Option.getD_none]
    · rw [Option.some_or, Option.getD_some, Option.getD_some]

/-- Positions that took some data are in the buffer. -/
theorem positions_of_scatterRanges {data out : Bytes} {ranges : List BlockRange} {position : Nat}
    {buffer : Bytes} (h : scatterRanges data ranges position buffer = .ok out) {p : Nat}
    (hp : p ∈ positions ranges) : p * blockSize + blockSize ≤ buffer.size := by
  obtain ⟨r, hr, -, hstop⟩ := BlockSet.mem_positions.mp hp
  have hfits := (fits_of_scatterRanges h).1 r hr
  have hend := Bytes.blockEnd_le hstop
  rw [BlockRange.stop, Nat.add_mul] at hend
  rw [BlockRange.byteStart, BlockRange.byteLength] at hfits
  omega

/-- A buffer to whose positions some blocks were assigned. -/
structure Assembled (as : Assignments) (buffer out : Bytes) : Prop where
  size_eq : out.size = buffer.size
  inside : ∀ a ∈ as, a.1 * blockSize + blockSize ≤ buffer.size
  block_eq : ∀ p, p * blockSize + blockSize ≤ buffer.size →
    out.block p = (lastAt as p).getD (buffer.block p)

namespace Assembled

theorem refl (buffer : Bytes) : Assembled [] buffer buffer := ⟨rfl, nofun, fun _ _ => rfl⟩

/-- Later assignments count. -/
theorem trans {as as' : Assignments} {buffer next out : Bytes} (h : Assembled as buffer next)
    (h' : Assembled as' next out) : Assembled (as ++ as') buffer out where
  size_eq := h'.size_eq.trans h.size_eq
  inside a ha := by
    rcases List.mem_append.mp ha with ha | ha
    · exact h.inside a ha
    · exact h.size_eq ▸ h'.inside a ha
  block_eq p hp := by
    rw [h'.block_eq p (by rw [h.size_eq]; exact hp), h.block_eq p hp, lastAt_append, Option.getD_or]

/-- Data at its locations. -/
theorem of_scatter {c : Command} {locations : BlockSet} {data buffer out : Bytes}
    (hset : locations.Sound) (h : scatter c locations data buffer = .ok out) :
    Assembled ((positions locations.ranges).zip (data.blocks 0 locations.total)) buffer out := by
  have h := scatter_eq_ok.mp h
  refine ⟨size_scatterRanges h, fun a ha => ?_, fun p hp => ?_⟩
  · exact positions_of_scatterRanges h (List.of_mem_zip ha).1
  · rw [← Nat.zero_mul blockSize] at h
    rw [block_scatterRanges h hp, BlockSet.length_positions hset]

end Assembled

/-! ## The arguments of a source -/

/-- Where the blocks of a range go: to the locations, or to the front of the source. -/
def targets (range : BlockSet) : Option String → List Nat
  | none => List.range range.total
  | some text =>
    match BlockSet.parse text with
    | .ok locations => positions locations.ranges
    | .error _ => []

/-- What the range of a source assigns, if it has one. -/
def rangeAssignments (c : Command) (position : Nat) (image : Bytes) : Assignments :=
  match c.args[position + 1]? with
  | none => []
  | some first =>
    match BlockSet.parse first with
    | .ok range =>
      (targets range c.args[position + 2]?).zip ((positions range.ranges).map image.block)
    | .error _ => []

/-- The file of an entry, if the stash holds it with a given size. -/
def entryFile? (s : Stash) (t : FileTree) (id : String) (size : Nat) : Option Bytes :=
  match t.node (s.base.join id) with
  | .ok (.file data) => if data.size = size then some data else none
  | _ => none

/-- What a piece assigns that was found or not. -/
def located (locations : BlockSet) : Option Bytes → Assignments
  | none => []
  | some data => (positions locations.ranges).zip (data.blocks 0 locations.total)

/-- What a piece of the stash assigns, if the stash holds it with the size of its locations. -/
def pieceAssignments (s : Stash) (t : FileTree) (piece : String) : Assignments :=
  match Blank.splitFirst? ':' piece with
  | none => []
  | some (id, text) =>
    match BlockSet.parse text with
    | .error _ => []
    | .ok locations => located locations (entryFile? s t id locations.byteLength)

/-- What the arguments of a source assign, in their order. -/
def assignments (c : Command) (position : Nat) (image : Bytes) (s : Stash) (t : FileTree) :
    Assignments :=
  rangeAssignments c position image ++ (pieces c position).flatMap (pieceAssignments s t)

theorem blockSetOf_eq_ok_iff {text : String} {set : BlockSet} :
    blockSetOf text = .ok set ↔ BlockSet.parse text = .ok set := by
  rw [blockSetOf, mapError_eq_ok, Command.blockSetOf, mapError_eq_ok]

/-- What can be loaded is the file of the entry. -/
theorem eq_entryFile?_of_load? {s : Stash} {t : FileTree} {id : String} {size : Nat}
    {found : Option Bytes} (h : s.load? t id size = .ok found) :
    found = entryFile? s t id size := by
  by_cases hid : Stash.validId id = true
  · rw [Stash.load?_of_entryPath (s.entryPath_of_validId hid)] at h
    rw [entryFile?]
    rcases hnode : t.node (s.base.join id) with e | data | _
    · rw [hnode] at h
      cases e with
      | errno e =>
        simp only at h
        split_ifs at h
        exact (Except.ok.inj h).symm
      | _ => cases h
    · rw [hnode] at h
      exact (Except.ok.inj h).symm
    · rw [hnode] at h
      simp only at h
      split_ifs at h
      exact (Except.ok.inj h).symm
  · rw [Stash.load?, s.entryPath_of_not_validId hid] at h
    cases h

/-- A piece that is looked for assigns what is loaded. -/
theorem pieceAssignments_of_load? {s : Stash} {t : FileTree} {piece id text : String}
    {locations : BlockSet} {found : Option Bytes}
    (hsplit : Blank.splitFirst? ':' piece = some (id, text))
    (hset : blockSetOf text = .ok locations)
    (hload : s.load? t id locations.byteLength = .ok found) :
    pieceAssignments s t piece = located locations found := by
  rw [pieceAssignments, hsplit]
  simp only [blockSetOf_eq_ok_iff.mp hset, ← eq_entryFile?_of_load? hload]

/-- Adding a piece is assigning its blocks. -/
theorem Assembled.of_addPiece {c : Command} {s : Stash} {t : FileTree} {buffer out : Bytes}
    {piece : String} (h : addPiece c s t buffer piece = .ok out) :
    Assembled (pieceAssignments s t piece) buffer out := by
  obtain ⟨id, text, locations, found, hsplit, hset, hload, h⟩ := addPiece_eq_ok.mp h
  rw [pieceAssignments_of_load? hsplit hset hload]
  cases found with
  | none =>
    obtain rfl : out = buffer := h
    exact .refl out
  | some data => exact .of_scatter (blockSetOf_eq_ok hset) h

/-- The pieces are added one after the other. -/
theorem Assembled.of_foldlM {c : Command} {s : Stash} {t : FileTree} {ps : List String}
    {buffer out : Bytes} (h : ps.foldlM (addPiece c s t) buffer = .ok out) :
    Assembled (ps.flatMap (pieceAssignments s t)) buffer out := by
  induction ps generalizing buffer with
  | nil =>
    obtain rfl : buffer = out := Except.ok.inj h
    exact .refl buffer
  | cons p ps ih =>
    rw [List.foldlM_cons, except_bind_eq_ok] at h
    obtain ⟨next, hnext, h⟩ := h
    exact (Assembled.of_addPiece hnext).trans (ih h)

section Device

variable {c : Command} {d : Device} {range : BlockSet} {locations : Option String}
  {buffer : Bytes} {out : Bytes × Nat}

/-- Adding the blocks of the device is assigning them. -/
theorem Assembled.of_addDevice (hrange : range.Sound) (hroom : range.byteLength ≤ buffer.size)
    (h : addDevice c d range locations buffer = .ok out) :
    Assembled ((targets range locations).zip ((range.readInto d).blocks 0 range.total)) buffer
      out.1 := by
  have hsize : (range.readInto d).size = range.total * blockSize := BlockSet.size_readInto hrange d
  cases locations with
  | none =>
    rw [← Except.ok.inj h, targets, List.range_eq_range']
    refine ⟨?_, fun a ha => ?_, fun p hp => ?_⟩
    · rw [Bytes.size_writeAt, hsize]
      rw [BlockSet.byteLength] at hroom
      omega
    · have hlt := List.mem_range'_1.mp (List.of_mem_zip ha).1
      have hend := Bytes.blockEnd_le (n := range.total) (k := a.1) (by omega)
      rw [BlockSet.byteLength] at hroom
      omega
    · have hblock : Bytes.block (buffer.writeAt (0 * blockSize) _) p = _ :=
        Bytes.block_writeAt hsize hp
      rw [Nat.zero_mul] at hblock
      rw [hblock, lastAt_run]
      split_ifs
      · rw [Option.getD_some, Nat.zero_add]
      · rfl
  | some text =>
    rw [addDevice] at h
    obtain ⟨set, hset, h⟩ := except_bind_eq_ok.mp h
    split_ifs at h with htotal
    · cases h
    · obtain ⟨data, hdata, h⟩ := except_bind_eq_ok.mp h
      have hall := Assembled.of_scatter (blockSetOf_eq_ok hset) hdata
      rw [Decidable.not_not.mp htotal] at hall
      rw [← Except.ok.inj h, targets, blockSetOf_eq_ok_iff.mp hset]
      exact hall

theorem length_targets (h : addDevice c d range locations buffer = .ok out) :
    (targets range locations).length = range.total := by
  cases locations with
  | none => rw [targets, List.length_range]
  | some text =>
    rw [addDevice] at h
    obtain ⟨set, hset, h⟩ := except_bind_eq_ok.mp h
    split_ifs at h with htotal
    · cases h
    · rw [targets, blockSetOf_eq_ok_iff.mp hset]
      exact (BlockSet.length_positions (blockSetOf_eq_ok hset)).trans (Decidable.not_not.mp htotal)

/-- The blocks of the device go to positions in the buffer. -/
theorem targets_of_addDevice (hrange : range.Sound) (hroom : range.byteLength ≤ buffer.size)
    (h : addDevice c d range locations buffer = .ok out) {p : Nat}
    (hp : p ∈ targets range locations) : p * blockSize + blockSize ≤ buffer.size := by
  have hlength : (targets range locations).length ≤
      ((range.readInto d).blocks 0 range.total).length := by
    refine Nat.le_of_eq ?_
    rw [length_targets h, Bytes.blocks, List.length_map, List.length_range']
  rw [← List.map_fst_zip hlength] at hp
  obtain ⟨a, ha, rfl⟩ := List.mem_map.mp hp
  exact (Assembled.of_addDevice hrange hroom h).inside a ha

end Device

/-! ## Whole sources -/

theorem args_of_arg {c : Command} {n : Nat} {value : String} (h : c.arg n = .ok value) :
    c.args[n]? = some value := by
  rw [Command.arg] at h
  split at h
  · rename_i found hfound
    rw [hfound, Except.ok.inj h]
  · cases h

theorem byteLength_le_zeros {range : BlockSet} {blocks : Nat} (h : range.total ≤ blocks) :
    range.byteLength ≤ (Bytes.zeros (blocks * blockSize)).size := by
  rw [Bytes.size_zeros, BlockSet.byteLength]
  exact Nat.mul_le_mul_right blockSize h

section Load

variable {c : Command} {position : Nat} {d : Device} {s : Stash} {t : FileTree} {src : Source}

theorem rangeAssignments_of_dash (harg : c.arg (position + 1) = .ok "-") (image : Bytes) :
    rangeAssignments c position image = [] := by
  rw [rangeAssignments, args_of_arg harg]
  rfl

theorem rangeAssignments_of_range {first : String} {range : BlockSet}
    (harg : c.arg (position + 1) = .ok first) (hrange : blockSetOf first = .ok range)
    (image : Bytes) : rangeAssignments c position image =
      (targets range c.args[position + 2]?).zip ((positions range.ranges).map image.block) := by
  rw [rangeAssignments, args_of_arg harg]
  simp only [blockSetOf_eq_ok_iff.mp hrange]

theorem lt_of_blockEnd_le {k n : Nat} (h : k * blockSize + blockSize ≤ n * blockSize) : k < n := by
  have hpos := blockSize_pos
  refine Nat.lt_of_not_le fun hle => ?_
  have hmul := Nat.mul_le_mul_right blockSize hle
  omega

/-- A source has the number of blocks that its command declares. -/
theorem number_of_load (h : load c position d s t = .ok src) :
    c.number position = .ok src.blocks := by
  obtain ⟨blocks, first, hnumber, -, ⟨-, data, rfl, -⟩ | ⟨-, range, start, data, rfl, -⟩⟩ :=
    load_eq_ok.mp h <;> exact hnumber

/-- **All assignments are inside a source**, whatever its range reads. -/
theorem lt_blocks_of_load (h : load c position d s t = .ok src) (image : Bytes) :
    ∀ a ∈ assignments c position image s t, a.1 < src.blocks := by
  have hsize := size_load h
  obtain ⟨blocks, first, -, hfirst, ⟨rfl, data, rfl, hdata⟩ | ⟨-, range, start, data, rfl,
    hrange, htotal, hstart, hdata⟩⟩ := load_eq_ok.mp h
  all_goals
    have hpieces := Assembled.of_foldlM hdata
    rw [hpieces.size_eq] at hsize
    intro a ha
    refine lt_of_blockEnd_le (Nat.le_trans ?_ (Nat.le_of_eq hsize))
  · rw [assignments, rangeAssignments_of_dash hfirst] at ha
    exact hpieces.inside a ha
  · rw [assignments, rangeAssignments_of_range hfirst hrange] at ha
    rcases List.mem_append.mp ha with ha | ha
    · have hsound := blockSetOf_eq_ok hrange
      have hroom := byteLength_le_zeros htotal
      rw [(Assembled.of_addDevice hsound hroom hstart).size_eq]
      exact targets_of_addDevice hsound hroom hstart (List.of_mem_zip ha).1
    · exact hpieces.inside a ha

/-- **A source is assembled from what its arguments assign**, if its range can be read. -/
theorem assembled_of_load (hendless : d.endless = false)
    (hread : ∀ first range, c.arg (position + 1) = .ok first → blockSetOf first = .ok range →
      ∃ data, range.read? d = some data) (h : load c position d s t = .ok src) :
    Assembled (assignments c position d.image s t) (Bytes.zeros (src.blocks * blockSize))
      src.data := by
  obtain ⟨blocks, first, -, hfirst, ⟨rfl, data, rfl, hdata⟩ | ⟨-, range, start, data, rfl,
    hrange, htotal, hstart, hdata⟩⟩ := load_eq_ok.mp h
  · rw [assignments, rangeAssignments_of_dash hfirst]
    exact .of_foldlM hdata
  · have hsound := blockSetOf_eq_ok hrange
    obtain ⟨found, hfound⟩ := hread first range hfirst hrange
    obtain ⟨hwithin, rfl⟩ := BlockSet.eq_contents_of_readRanges hendless hsound.nonempty
      (BlockSet.read?_eq_some.mp hfound)
    have hroom := byteLength_le_zeros htotal
    have hdevice := Assembled.of_addDevice hsound hroom hstart
    rw [BlockSet.readInto_of_read? hsound hfound, ByteArray.empty_append,
      ← BlockSet.length_positions hsound, BlockSet.blocks_contents hwithin] at hdevice
    rw [assignments, rangeAssignments_of_range hfirst hrange]
    exact hdevice.trans (.of_foldlM hdata)

/-- **The blocks of a source.** A source has the declared size, and each block in it is the one of
the last assignment to its position, or zeros if there is none. An assignment outside of it is an
error. -/
theorem load_assigned (hendless : d.endless = false)
    (hread : ∀ first range, c.arg (position + 1) = .ok first → blockSetOf first = .ok range →
      ∃ data, range.read? d = some data) :
    (∀ src, load c position d s t = .ok src →
      c.number position = .ok src.blocks ∧ src.data.size = src.blocks * blockSize ∧
      ∀ p < src.blocks, src.data.block p =
        (lastAt (assignments c position d.image s t) p).getD (Bytes.zeros blockSize)) ∧
    ∀ blocks, c.number position = .ok blocks →
      (∃ a ∈ assignments c position d.image s t, blocks ≤ a.1) →
      ∃ e, load c position d s t = .error e := by
  refine ⟨fun src h => ⟨number_of_load h, size_load h, fun p hp => ?_⟩,
    fun blocks hblocks hout => ?_⟩
  · have hblock := (assembled_of_load hendless hread h).block_eq p
      (by rw [Bytes.size_zeros]; exact Bytes.blockEnd_le hp)
    rwa [Bytes.block_zeros hp] at hblock
  · rcases hload : load c position d s t with e | src
    · exact ⟨e, rfl⟩
    · obtain ⟨a, ha, hle⟩ := hout
      have hlt := lt_blocks_of_load hload d.image a ha
      have hsame := Except.ok.inj (hblocks.symm.trans (number_of_load hload))
      omega

end Load

end Source

end BlockUpdate
