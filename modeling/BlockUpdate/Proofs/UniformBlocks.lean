import BlockUpdate.Proofs.Digest
import BlockUpdate.Proofs.Streaming
import BlockUpdate.Standard
import Mathlib.Data.List.GetD

/-!
# Images of uniform blocks

An image in which every block repeats one byte is a list of these bytes, and reading and writing
whole blocks comes down to taking such lists apart and putting them together. What a command does
on such an image can be computed, whatever the size of a block.

- `Bytes.uniform`: the image of a list.
- `BlockSet.pick`, `BlockSet.spread`: reading and writing ranges of a list.
- **`BlockSet.read?_uniform`**, **`BlockSet.write_uniform`**: the same of images.
- `Digest.tabled`: a digest without collisions that is SHA-256 on the images of a table.
-/

namespace BlockUpdate

namespace Bytes

/-! ## Images -/

/-- The byte string whose blocks repeat the given bytes. -/
def uniform (fill : List UInt8) : Bytes :=
  ⟨Array.ofFn fun i : Fin (fill.length * blockSize) => fill.getD (i / blockSize) 0⟩

variable (fill data : List UInt8)

theorem sub_div_blockSize (i n : Nat) : (i - n * blockSize) / blockSize = i / blockSize - n := by
  rw [Nat.mul_comm, Nat.sub_mul_div]

@[simp] theorem size_uniform : (uniform fill).size = fill.length * blockSize := by
  show (Array.ofFn _).size = _
  rw [Array.size_ofFn]

theorem byte_uniform (i : Nat) : (uniform fill).byte i = fill.getD (i / blockSize) 0 := by
  rw [byte, uniform, Array.getElem?_ofFn]
  split_ifs with hi
  · rfl
  · have hle : fill.length ≤ i / blockSize :=
      (Nat.le_div_iff_mul_le blockSize_pos).mpr (Nat.not_lt.mp hi)
    rw [List.getD_eq_default _ _ hle]
    rfl

theorem append_uniform : uniform fill ++ uniform data = uniform (fill ++ data) := by
  refine ext_byte ?_ fun i => ?_
  · simp [ByteArray.size_append, Nat.add_mul]
  · rw [byte_append, size_uniform, byte_uniform, byte_uniform, byte_uniform]
    split_ifs with hi
    · rw [List.getD_append _ _ _ _ ((Nat.div_lt_iff_lt_mul blockSize_pos).mpr hi)]
    · have hle : fill.length ≤ i / blockSize :=
        (Nat.le_div_iff_mul_le blockSize_pos).mpr (Nat.not_lt.mp hi)
      rw [List.getD_append_right _ _ _ _ hle, sub_div_blockSize]

theorem zeros_eq_uniform (n : Nat) :
    zeros (n * blockSize) = uniform (List.replicate n 0) := by
  refine ext_byte (by simp) fun i => ?_
  rw [byte_zeros, byte_uniform]
  by_cases hi : i / blockSize < n
  · rw [List.getD_eq_getElem _ _ (by simpa using hi), List.getElem_replicate]
  · rw [List.getD_eq_default _ _ (by simpa using hi)]

/-- A window of whole blocks. -/
theorem extract_uniform {start count : Nat} (h : start + count ≤ fill.length) :
    (uniform fill).extract (start * blockSize) (start * blockSize + count * blockSize) =
      uniform ((fill.drop start).take count) := by
  have hle : start * blockSize + count * blockSize ≤ fill.length * blockSize := by
    rw [← Nat.add_mul]
    exact Nat.mul_le_mul_right blockSize h
  have hlength : ((fill.drop start).take count).length = count := by simp; omega
  refine ext_byte ?_ fun k => ?_
  · rw [ByteArray.size_extract, size_uniform, size_uniform, hlength]
    omega
  · rw [byte_extract, size_uniform, byte_uniform, byte_uniform, Nat.mul_comm start,
      Nat.mul_add_div blockSize_pos]
    split_ifs with hk
    · have hlt : k / blockSize < count := (Nat.div_lt_iff_lt_mul blockSize_pos).mpr (by
        rw [Nat.mul_comm blockSize] at hk
        omega)
      simp [List.getD_eq_getElem?_getD, hlt]
    · rw [List.getD_eq_default]
      rw [hlength]
      refine (Nat.le_div_iff_mul_le blockSize_pos).mpr ?_
      rw [Nat.mul_comm blockSize] at hk
      omega

theorem takeFirst_uniform {count : Nat} (h : count ≤ fill.length) :
    (uniform fill).takeFirst (count * blockSize) = uniform (fill.take count) := by
  have := extract_uniform fill (by omega : 0 + count ≤ fill.length)
  rwa [Nat.zero_mul, Nat.zero_add] at this

theorem dropFirst_uniform (count : Nat) :
    (uniform fill).dropFirst (count * blockSize) = uniform (fill.drop count) := by
  refine ext_byte ?_ fun i => ?_
  · rw [size_dropFirst, size_uniform, size_uniform, List.length_drop, Nat.sub_mul]
  · rw [byte_dropFirst, byte_uniform, byte_uniform, Nat.mul_comm count,
      Nat.mul_add_div blockSize_pos, List.getD_eq_getElem?_getD, List.getD_eq_getElem?_getD,
      List.getElem?_drop]

/-- Whole blocks are written over others. -/
theorem writeAt_uniform (start : Nat) (h : start + data.length ≤ fill.length) :
    (uniform fill).writeAt (start * blockSize) (uniform data) =
      uniform (fill.take start ++ data ++ fill.drop (start + data.length)) := by
  have hlength : (fill.take start ++ data ++ fill.drop (start + data.length)).length =
      fill.length := by
    simp
    omega
  have hle : start * blockSize + data.length * blockSize ≤ fill.length * blockSize := by
    rw [← Nat.add_mul]
    exact Nat.mul_le_mul_right blockSize h
  refine ext_byte ?_ fun i => ?_
  · rw [size_writeAt, size_uniform, size_uniform, size_uniform, hlength]
    omega
  · have hstart : start * blockSize ≤ i ↔ start ≤ i / blockSize :=
      (Nat.le_div_iff_mul_le blockSize_pos).symm
    have hstop : i < start * blockSize + data.length * blockSize ↔
        i / blockSize < start + data.length := by
      rw [← Nat.add_mul]
      exact (Nat.div_lt_iff_lt_mul blockSize_pos).symm
    rw [byte_writeAt, size_uniform, byte_uniform, byte_uniform, byte_uniform, sub_div_blockSize]
    simp only [hstart, hstop]
    split_ifs with hin
    · rw [List.append_assoc, List.getD_append_right _ _ _ _ (by simp; omega),
        List.getD_append _ _ _ _ (by simp; omega)]
      congr 1
      simp
      omega
    · by_cases hlow : i / blockSize < start
      · rw [List.append_assoc, List.getD_append _ _ _ _ (by simp; omega)]
        simp [List.getD_eq_getElem?_getD, hlow]
      · rw [List.getD_append_right _ _ _ _ (by simp; omega)]
        have hback : start + data.length + (i / blockSize - (start + data.length)) =
            i / blockSize := by omega
        have hfront : (fill.take start ++ data).length = start + data.length := by
          simp
          omega
        rw [hfront]
        simp [List.getD_eq_getElem?_getD, hback]

end Bytes

open Bytes (uniform)

/-! ## Reading -/

namespace BlockSet

/-- The elements of a list at some ranges, in order. -/
def pick (ranges : List BlockRange) (fill : List UInt8) : List UInt8 :=
  ranges.flatMap fun r => (fill.drop r.start).take r.count

variable {set : BlockSet} {ranges : List BlockRange} {fill : List UInt8} {d : Device}

theorem readRanges_uniform (hd : d.Healthy) (himage : d.image = uniform fill)
    (hlimit : fill.length * blockSize < Device.offsetLimit)
    (hfits : ∀ r ∈ ranges, r.stop ≤ fill.length) (out : List UInt8) :
    readRanges d ranges (uniform out) = (uniform (out ++ pick ranges fill), true) := by
  induction ranges generalizing out with
  | nil => simp [readRanges, pick]
  | cons r rest ih =>
    have hr : r.start + r.count ≤ fill.length := hfits r List.mem_cons_self
    have hstart : ¬ Device.offsetLimit ≤ r.byteStart := by
      have : r.byteStart ≤ fill.length * blockSize := Nat.mul_le_mul_right blockSize (by omega)
      omega
    have hread : d.readable r.byteStart r.byteLength =
        uniform ((fill.drop r.start).take r.count) := by
      rw [Device.readable_of_healthy hd, if_neg hstart, himage]
      exact Bytes.extract_uniform fill hr
    have hsize : (uniform ((fill.drop r.start).take r.count)).size = r.byteLength := by
      rw [Bytes.size_uniform, BlockRange.byteLength]
      congr 1
      simp
      omega
    rw [readRanges, hread, if_pos hsize, Bytes.append_uniform,
      ih fun q hq => hfits q (List.mem_cons_of_mem r hq), pick, pick, List.flatMap_cons,
      List.append_assoc]

/-- **What a set reads** from an image of uniform blocks. -/
theorem read?_uniform (hd : d.Healthy) (himage : d.image = uniform fill)
    (hlimit : fill.length * blockSize < Device.offsetLimit)
    (hfits : ∀ r ∈ set.ranges, r.stop ≤ fill.length) :
    set.read? d = some (uniform (pick set.ranges fill)) :=
  read?_eq_some.mpr (readRanges_uniform hd himage hlimit hfits [])

/-! ## Writing -/

/-- A list with the elements at some ranges replaced, in order. -/
def spread : List BlockRange → List UInt8 → List UInt8 → List UInt8
  | [], _, fill => fill
  | r :: rest, data, fill =>
    spread rest (data.drop r.count) (fill.take r.start ++ data.take r.count ++ fill.drop r.stop)

/-- What is spread over an image of uniform blocks. -/
theorem laid_uniform {data : List UInt8} (hfits : ∀ r ∈ ranges, r.stop ≤ fill.length)
    (hdata : (ranges.map (·.count)).sum ≤ data.length) :
    laid ranges 0 (uniform data) (uniform fill) = uniform (spread ranges data fill) := by
  induction ranges generalizing data fill with
  | nil => rfl
  | cons r rest ih =>
    rw [List.map_cons, List.sum_cons] at hdata
    have hr : r.start + r.count ≤ fill.length := hfits r List.mem_cons_self
    have htake : (data.take r.count).length = r.count := by simp; omega
    have hover := Bytes.writeAt_uniform fill (data.take r.count) r.start (by omega)
    rw [htake] at hover
    have hlength : (fill.take r.start ++ data.take r.count ++ fill.drop r.stop).length =
        fill.length := by
      simp [BlockRange.stop]
      omega
    rw [laid, Nat.sub_zero, Nat.add_zero, BlockRange.byteLength, BlockRange.byteStart,
      Bytes.takeFirst_uniform data (by omega), Bytes.dropFirst_uniform, hover, spread]
    exact ih (fun q hq => hlength ▸ hfits q (List.mem_cons_of_mem r hq)) (by simp; omega)

/-- A set lies within an image of uniform blocks. -/
theorem within_uniform (himage : d.image = uniform fill)
    (hfits : ∀ r ∈ ranges, r.stop ≤ fill.length) : Within ranges d.image.size := by
  intro r hr
  rw [himage, Bytes.size_uniform, BlockRange.byteStart, BlockRange.byteLength, ← Nat.add_mul]
  exact Nat.mul_le_mul_right blockSize (hfits r hr)

/-- **What a set writes** to an image of uniform blocks. -/
theorem write_uniform {data : List UInt8} (hd : d.Healthy) (himage : d.image = uniform fill)
    (hlimit : fill.length * blockSize < Device.offsetLimit)
    (hfits : ∀ r ∈ set.ranges, r.stop ≤ fill.length)
    (hset : set.Sound) (hdata : set.total ≤ data.length) :
    ∃ n d', outcome (set.write (uniform data)) d = (.ok n, d') ∧ d'.Healthy ∧
      d'.image = uniform (spread set.ranges data fill) := by
  obtain ⟨n, d', hwrite, hd', himage'⟩ := write_laid hset hd (within_uniform himage hfits)
    (by rw [himage, Bytes.size_uniform]; exact Nat.le_of_lt hlimit)
    (by rw [Bytes.size_uniform]; exact Nat.mul_le_mul_right blockSize hdata :
      set.byteLength ≤ (uniform data).size)
  refine ⟨n, d', hwrite, hd', ?_⟩
  rw [himage', himage, laid_uniform hfits (hset.total_eq ▸ hdata)]

end BlockSet

/-! ## Digests -/

namespace Digest

/-- The first byte of each block. -/
def samples (data : Bytes) : List UInt8 :=
  (List.range (data.size / blockSize)).map fun k => data.byte (k * blockSize)

theorem samples_uniform (fill : List UInt8) : samples (uniform fill) = fill := by
  rw [samples, Bytes.size_uniform, Nat.mul_div_cancel _ blockSize_pos]
  refine List.ext_getElem (by simp) fun k hk hk' => ?_
  rw [List.getElem_map, List.getElem_range, Bytes.byte_uniform,
    Nat.mul_div_cancel _ blockSize_pos, List.getD_eq_getElem _ _ hk']

/-- The SHA-256 digests of some images of uniform blocks, as texts. -/
def table : List (List UInt8 × String) :=
  [([0], "ad7facb2586fc6e966c004d7d1d16b024f5805ff7cb47c7a85dabd8b48892ca7"),
   ([5], "fb7363f1f02c2f244c32aa8076ef7edbc2e621137542836adc1e312143968d75"),
   ([7], "c9ac7b0624824f844f6c7f3d50fab9741a8914e878467e8daaedca143a34d90b"),
   ([0, 0], "9f1dcbc35c350d6027f98be0f5c8b43b42ca52b7604459c0c42be3aa88913d47"),
   ([0, 1], "e9c55fe8dc51ba8592523e8634d8bfd1b74a00a3138bb44b0947c5069b01c76b"),
   ([1, 1], "6ba042a6672c64272ce75901468fd210026cd674fe9f1e11b46c9302e47e2136")]

/-- The bytes of a digest that is given as a text. -/
def ofText (text : String) : Bytes := (Hex.decode text).toOption.getD ByteArray.empty

/-- The digest of an image of uniform blocks. For what is not in the table it is longer than a
SHA-256 digest, and says what is in the blocks. -/
def ofUniform (fill : List UInt8) : Bytes :=
  ((table.lookup fill).map ofText).getD (Bytes.ofList (List.replicate 32 0 ++ 1 :: fill))

/-- The digest of an image of uniform blocks as a script has it. -/
def name (fill : List UInt8) : String :=
  (table.lookup fill).getD (Hex.encode (ofUniform fill))

/-- A digest that is SHA-256 on the images of the table, and tells all others apart. -/
def tabled (data : Bytes) : Bytes :=
  if data = uniform (samples data) then ofUniform (samples data)
  else Bytes.ofList (List.replicate 32 0 ++ 0 :: data.data.toList)

theorem tabled_uniform (fill : List UInt8) : tabled (uniform fill) = ofUniform fill := by
  rw [tabled, samples_uniform, if_pos rfl]

theorem table_texts : ∀ entry ∈ table,
    Hex.encode (ofText entry.2) = entry.2 ∧ (ofText entry.2).size = 32 := by
  decide

theorem table_keys : ∀ a ∈ table, ∀ b ∈ table, a.2 = b.2 → a.1 = b.1 := by
  decide

/-- A digest is in the table, or longer than those that are. -/
theorem ofUniform_cases (fill : List UInt8) :
    ((fill, name fill) ∈ table ∧ ofUniform fill = ofText (name fill)) ∨
      name fill = Hex.encode (ofUniform fill) ∧
        ofUniform fill = Bytes.ofList (List.replicate 32 0 ++ 1 :: fill) := by
  rcases hlookup : table.lookup fill with _ | text
  · exact .inr ⟨by rw [name, hlookup]; rfl, by rw [ofUniform, hlookup]; rfl⟩
  · obtain ⟨before, after, hentries, -⟩ := List.lookup_eq_some_iff.mp hlookup
    have hname : name fill = text := by rw [name, hlookup]; rfl
    refine .inl ⟨?_, by rw [hname, ofUniform, hlookup]; rfl⟩
    rw [hname, hentries]
    exact List.mem_append_right _ List.mem_cons_self

/-- What a script has is the text of the digest. -/
theorem encode_ofUniform (fill : List UInt8) : Hex.encode (ofUniform fill) = name fill := by
  rcases ofUniform_cases fill with ⟨hmem, hdigest⟩ | ⟨hname, -⟩
  · rw [hdigest]
    exact (table_texts _ hmem).1
  · exact hname.symm

theorem ofList_injective {a b : List UInt8} (h : Bytes.ofList a = Bytes.ofList b) : a = b := by
  have hdata := congrArg (fun x : Bytes => x.data.toList) h
  simpa [Bytes.ofList] using hdata

/-- What is not in the table has a digest of its own length. -/
theorem size_ofList_zeros (x : UInt8) (rest : List UInt8) :
    32 < (Bytes.ofList (List.replicate 32 0 ++ x :: rest)).size := by
  show 32 < (List.replicate 32 0 ++ x :: rest).length
  rw [List.length_append, List.length_replicate, List.length_cons]
  omega

theorem name_ne_empty (fill : List UInt8) : (name fill).isEmpty = false := by
  rw [← Bool.not_eq_true, String.isEmpty_iff, ← encode_ofUniform]
  intro hempty
  have hnone : ofUniform fill = ByteArray.empty := Hex.encode_injective hempty
  rcases ofUniform_cases fill with ⟨hmem, hdigest⟩ | ⟨-, hlong⟩
  · have hsize := (table_texts _ hmem).2
    rw [← hdigest, hnone] at hsize
    cases hsize
  · have hsize := size_ofList_zeros 1 fill
    rw [← hlong, hnone] at hsize
    exact absurd hsize (by decide)

theorem ofUniform_injective {fill data : List UInt8} (h : ofUniform fill = ofUniform data) :
    fill = data := by
  have hnames : name fill = name data := by
    rw [← encode_ofUniform, h, encode_ofUniform]
  rcases ofUniform_cases fill with ⟨hfill, hdigest⟩ | ⟨-, hfill⟩ <;>
    rcases ofUniform_cases data with ⟨hdata, hdigest'⟩ | ⟨-, hdata⟩
  · exact table_keys _ hfill _ hdata hnames
  · have hsize := (table_texts _ hfill).2
    have hlong := size_ofList_zeros 1 data
    rw [← hdata, ← h, hdigest] at hlong
    exact absurd hsize (Nat.ne_of_gt hlong)
  · have hsize := (table_texts _ hdata).2
    have hlong := size_ofList_zeros 1 fill
    rw [← hfill, h, hdigest'] at hlong
    exact absurd hsize (Nat.ne_of_gt hlong)
  · rw [hfill, hdata] at h
    exact (List.cons.inj (List.append_cancel_left (ofList_injective h))).2

/-- Only uniform blocks have the digest of uniform blocks. -/
theorem ofUniform_ne (fill rest : List UInt8) :
    ofUniform fill ≠ Bytes.ofList (List.replicate 32 0 ++ 0 :: rest) := by
  intro h
  rcases ofUniform_cases fill with ⟨hmem, hdigest⟩ | ⟨-, hlong⟩
  · have hsize := (table_texts _ hmem).2
    have hlong := size_ofList_zeros 0 rest
    rw [← h, hdigest] at hlong
    exact absurd hsize (Nat.ne_of_gt hlong)
  · rw [hlong] at h
    exact absurd (List.cons.inj (List.append_cancel_left (ofList_injective h))).1 (by decide)

/-- **The digest has no collisions.** -/
theorem tabled_injective {a b : Bytes} (h : tabled a = tabled b) : a = b := by
  rw [tabled, tabled] at h
  split_ifs at h with ha hb hb
  · rw [ha, ofUniform_injective h, ← hb]
  · exact absurd h (ofUniform_ne _ _)
  · exact absurd h.symm (ofUniform_ne _ _)
  · obtain ⟨-, hdata⟩ := List.cons.inj (List.append_cancel_left (ofList_injective h))
    exact ByteArray.ext (Array.toList_inj.mp hdata)

end Digest

/-- Primitives with this digest. -/
def Primitives.tabled : Primitives := { Primitives.standard with sha256 := Digest.tabled }

theorem collisionFree_tabled (involved : Bytes → Prop) : CollisionFree .tabled involved :=
  fun _ _ _ _ h => Digest.tabled_injective h

theorem Checksum.text_uniform (fill : List UInt8) :
    text .tabled (uniform fill) = Digest.name fill :=
  (congrArg Hex.encode (Digest.tabled_uniform fill)).trans (Digest.encode_ofUniform fill)

/-- **What passes a check** among images of uniform blocks. -/
theorem Checksum.verify_uniform {fill named : List UInt8} {blocks : Nat}
    (hblocks : fill.length = blocks) :
    verify .tabled (uniform fill) blocks (Digest.name named) = decide (fill = named) := by
  have hsize : (uniform fill).size = blocks * blockSize := by rw [Bytes.size_uniform, hblocks]
  have hwhole : (uniform fill).takeFirst (blocks * blockSize) = uniform fill :=
    Bytes.takeFirst_of_size_le (Nat.le_of_eq hsize)
  have hlower : ∀ fill, Hex.lowerAscii (Digest.name fill) = Digest.name fill := fun fill => by
    rw [← Digest.encode_ofUniform, Hex.lowerAscii_encode]
  have hsame : Digest.name fill = Digest.name named ↔ fill = named := by
    rw [← Digest.encode_ofUniform, ← Digest.encode_ofUniform]
    exact ⟨fun h => Digest.ofUniform_injective (Hex.encode_injective h), fun h => by rw [h]⟩
  rw [verify, hwhole, text_uniform, Digest.name_ne_empty, hsize, decide_eq_true (Nat.le_refl _),
    Hex.sameDigest, hlower, hlower, Bool.eq_iff_iff]
  simpa using hsame

end BlockUpdate
