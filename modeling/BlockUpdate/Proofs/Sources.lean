import BlockUpdate.Proofs.Reading
import BlockUpdate.Proofs.StashFiles

/-!
# What a source depends on

A source is put together piece by piece in a buffer whose size is declared beforehand. So two
attempts can be compared one step at a time, by whatever relation each step preserves.

- `Source.pieces`: the arguments that name pieces of the stash.
- **`Source.size_load`**: a source has the size that its command declares.
- **`Source.load_rel`**: attempts whose steps are related end in related sources.
- **`Source.load_congr`**: a source depends on what its range reads and on what its pieces load.
- **`Source.load_elsewhere`**: whether there is one does not depend on what these contain.
-/

namespace BlockUpdate

namespace Source

/-! ## Scattering -/

theorem scatterRanges_cons_eq_ok {data out buffer : Bytes} {r : BlockRange}
    {rest : List BlockRange} {position : Nat} :
    scatterRanges data (r :: rest) position buffer = .ok out ↔
      r.byteStart + r.byteLength ≤ buffer.size ∧ position + r.byteLength ≤ data.size ∧
      scatterRanges data rest (position + r.byteLength)
        (buffer.writeAt r.byteStart (data.extract position (position + r.byteLength))) =
          .ok out := by
  rw [scatterRanges]
  split_ifs with hbuffer hdata
  · exact ⟨nofun, fun h => absurd h.1 (by omega)⟩
  · exact ⟨nofun, fun h => absurd h.2.1 (by omega)⟩
  · exact ⟨fun h => ⟨by omega, by omega, h⟩, fun h => h.2.2⟩

/-- What is written inside a buffer leaves its size. -/
theorem size_writeAt_extract {data buffer : Bytes} {r : BlockRange}
    (h : r.byteStart + r.byteLength ≤ buffer.size) (position : Nat) :
    (buffer.writeAt r.byteStart (data.extract position (position + r.byteLength))).size =
      buffer.size := by
  rw [Bytes.size_writeAt, ByteArray.size_extract]
  omega

theorem size_scatterRanges {data out : Bytes} {ranges : List BlockRange} {position : Nat}
    {buffer : Bytes} (h : scatterRanges data ranges position buffer = .ok out) :
    out.size = buffer.size := by
  induction ranges generalizing position buffer with
  | nil => rw [Except.ok.inj h]
  | cons r rest ih =>
    obtain ⟨hbuffer, -, h⟩ := scatterRanges_cons_eq_ok.mp h
    rw [ih h, size_writeAt_extract hbuffer]

/-- Data goes to its locations if these are in the buffer and there is enough of it. -/
theorem scatterRanges_of_fits {data : Bytes} {ranges : List BlockRange} {position : Nat}
    {buffer : Bytes} (hbuffer : ∀ r ∈ ranges, r.byteStart + r.byteLength ≤ buffer.size)
    (hdata : position + rangesLength ranges ≤ data.size) :
    ∃ out, scatterRanges data ranges position buffer = .ok out := by
  induction ranges generalizing position buffer with
  | nil => exact ⟨buffer, rfl⟩
  | cons r rest ih =>
    rw [rangesLength_cons] at hdata
    have hfirst := hbuffer r List.mem_cons_self
    have hrest : ∀ q ∈ rest, q.byteStart + q.byteLength ≤ (buffer.writeAt r.byteStart
        (data.extract position (position + r.byteLength))).size := by
      intro q hq
      rw [size_writeAt_extract hfirst]
      exact hbuffer q (List.mem_cons_of_mem r hq)
    obtain ⟨out, hout⟩ := ih hrest (by omega : position + r.byteLength + _ ≤ data.size)
    exact ⟨out, scatterRanges_cons_eq_ok.mpr ⟨hfirst, by omega, hout⟩⟩

/-- Locations that took some data are in the buffer, and there was enough of it. -/
theorem fits_of_scatterRanges {data out : Bytes} {ranges : List BlockRange} {position : Nat}
    {buffer : Bytes} (h : scatterRanges data ranges position buffer = .ok out) :
    (∀ r ∈ ranges, r.byteStart + r.byteLength ≤ buffer.size) ∧
      (ranges = [] ∨ position + rangesLength ranges ≤ data.size) := by
  induction ranges generalizing position buffer with
  | nil => exact ⟨nofun, .inl rfl⟩
  | cons r rest ih =>
    obtain ⟨hbuffer, hdata, h⟩ := scatterRanges_cons_eq_ok.mp h
    obtain ⟨hrest, hroom⟩ := ih h
    rw [size_writeAt_extract hbuffer] at hrest
    refine ⟨fun q hq => ?_, .inr ?_⟩
    · rcases List.mem_cons.mp hq with rfl | hq
      · exact hbuffer
      · exact hrest q hq
    · rw [rangesLength_cons]
      rcases hroom with rfl | hroom
      · rw [rangesLength_nil]
        omega
      · omega

theorem scatter_eq_ok {c : Command} {locations : BlockSet} {data buffer out : Bytes} :
    scatter c locations data buffer = .ok out ↔
      scatterRanges data locations.ranges 0 buffer = .ok out := by
  rw [scatter]
  cases scatterRanges data locations.ranges 0 buffer with
  | ok b => simp
  | error fault => exact ⟨nofun, nofun⟩

/-- Whether data can be scattered depends on sizes alone. -/
theorem scatter_elsewhere {c : Command} {locations : BlockSet} {data data' buffer buffer' out : Bytes}
    (h : scatter c locations data buffer = .ok out) (hdata : data'.size = data.size)
    (hbuffer : buffer'.size = buffer.size) :
    ∃ out', scatter c locations data' buffer' = .ok out' ∧ out'.size = out.size := by
  have h := scatter_eq_ok.mp h
  obtain ⟨hfits, hroom⟩ := fits_of_scatterRanges h
  have hfits' : ∃ out', scatterRanges data' locations.ranges 0 buffer' = .ok out' := by
    rcases hroom with hnil | hroom
    · rw [hnil]
      exact ⟨buffer', rfl⟩
    · exact scatterRanges_of_fits (hbuffer ▸ hfits) (hdata ▸ hroom)
  obtain ⟨out', hout⟩ := hfits'
  exact ⟨out', scatter_eq_ok.mpr hout, by
    rw [size_scatterRanges hout, size_scatterRanges h, hbuffer]⟩

/-! ## Pieces -/

/-- The arguments that name pieces of the stash, for a source described from a position on. -/
def pieces (c : Command) (position : Nat) : List String :=
  if c.args[position + 1]? = some "-" then c.args.drop (position + 2)
  else c.args.drop (position + 3)

theorem blockSetOf_eq_ok {text : String} {set : BlockSet} (h : blockSetOf text = .ok set) :
    set.Sound := by
  rw [blockSetOf, mapError_eq_ok, Command.blockSetOf, mapError_eq_ok] at h
  exact BlockSet.sound_of_parse h

/-- What adding a piece of the stash comes to. -/
theorem addPiece_eq_ok {c : Command} {s : Stash} {t : FileTree} {buffer out : Bytes}
    {piece : String} :
    addPiece c s t buffer piece = .ok out ↔
      ∃ id text locations found, Blank.splitFirst? ':' piece = some (id, text) ∧
        blockSetOf text = .ok locations ∧ s.load? t id locations.byteLength = .ok found ∧
        match found with
        | some data => scatter c locations data buffer = .ok out
        | none => out = buffer := by
  rw [addPiece]
  rcases Blank.splitFirst? ':' piece with _ | ⟨id, text⟩
  · exact ⟨nofun, fun ⟨_, _, _, _, h, _⟩ => nomatch h⟩
  · show (blockSetOf text >>= fun locations =>
      (s.load? t id locations.byteLength).mapError CommandFailure.stash >>= fun found =>
        match found with
        | some data => scatter c locations data buffer
        | none => pure buffer) = .ok out ↔ _
    simp only [except_bind_eq_ok, mapError_eq_ok]
    constructor
    · rintro ⟨locations, hset, found, hload, h⟩
      refine ⟨id, text, locations, found, rfl, hset, hload, ?_⟩
      cases found with
      | some data => exact h
      | none => exact (Except.ok.inj h).symm
    · rintro ⟨id', text', locations, found, hsplit, hset, hload, h⟩
      obtain ⟨rfl, rfl⟩ : id = id' ∧ text = text' := by simpa using hsplit
      refine ⟨locations, hset, found, hload, ?_⟩
      cases found with
      | some data => exact h
      | none => exact congrArg Except.ok h.symm

theorem size_addPiece {c : Command} {s : Stash} {t : FileTree} {buffer out : Bytes}
    {piece : String} (h : addPiece c s t buffer piece = .ok out) : out.size = buffer.size := by
  obtain ⟨_, _, _, found, -, -, -, h⟩ := addPiece_eq_ok.mp h
  cases found with
  | some data => exact size_scatterRanges (scatter_eq_ok.mp h)
  | none => rw [h]

/-! ## The device -/

theorem size_addDevice {c : Command} {d : Device} {range : BlockSet} (hrange : range.Sound)
    {locations : Option String} {buffer : Bytes} (hbuffer : range.byteLength ≤ buffer.size)
    {out : Bytes × Nat} (h : addDevice c d range locations buffer = .ok out) :
    out.1.size = buffer.size := by
  cases locations with
  | none =>
    rw [← Except.ok.inj h, Bytes.size_writeAt, BlockSet.size_readInto hrange]
    omega
  | some text =>
    rw [addDevice] at h
    obtain ⟨locations, -, h⟩ := except_bind_eq_ok.mp h
    split_ifs at h
    · cases h
    · obtain ⟨data, hdata, h⟩ := except_bind_eq_ok.mp h
      rw [← Except.ok.inj h]
      exact size_scatterRanges (scatter_eq_ok.mp hdata)

/-- Whether the blocks of a device can be added does not depend on what they contain. -/
theorem addDevice_elsewhere {c : Command} {d : Device} {range : BlockSet} (hrange : range.Sound)
    {locations : Option String} {buffer : Bytes} {out : Bytes × Nat}
    (h : addDevice c d range locations buffer = .ok out) (d' : Device) :
    ∃ data, addDevice c d' range locations buffer = .ok (data, out.2) ∧
      data.size = out.1.size := by
  have hsize : (range.readInto d').size = (range.readInto d).size := by
    rw [BlockSet.size_readInto hrange, BlockSet.size_readInto hrange]
  cases locations with
  | none =>
    rw [← Except.ok.inj h]
    refine ⟨_, rfl, ?_⟩
    rw [Bytes.size_writeAt, Bytes.size_writeAt, hsize]
  | some text =>
    rw [addDevice] at h
    obtain ⟨set, hset, h⟩ := except_bind_eq_ok.mp h
    split_ifs at h with htotal
    · cases h
    · obtain ⟨data, hdata, h⟩ := except_bind_eq_ok.mp h
      obtain ⟨data', hdata', hout⟩ := scatter_elsewhere hdata hsize rfl
      rw [← Except.ok.inj h]
      refine ⟨data', ?_, hout⟩
      rw [addDevice]
      refine except_bind_eq_ok.mpr ⟨set, hset, ?_⟩
      rw [if_neg htotal]
      exact except_bind_eq_ok.mpr ⟨data', hdata', rfl⟩

/-- The pieces follow the locations; where these are missing, nothing follows. -/
theorem drop_addDevice {c : Command} {position : Nat} {d : Device} {range : BlockSet}
    {buffer : Bytes} {out : Bytes × Nat}
    (h : addDevice c d range c.args[position + 2]? buffer = .ok out) :
    c.args.drop (position + 1 + out.2) = c.args.drop (position + 3) := by
  rcases hlocations : c.args[position + 2]? with _ | text
  · have hlength := List.getElem?_eq_none_iff.mp hlocations
    rw [List.drop_eq_nil_of_le (by omega : c.args.length ≤ position + 3)]
    rw [hlocations] at h
    rw [← Except.ok.inj h]
    exact List.drop_eq_nil_of_le hlength
  · rw [hlocations, addDevice] at h
    obtain ⟨set, -, h⟩ := except_bind_eq_ok.mp h
    split_ifs at h
    · cases h
    · obtain ⟨data, -, h⟩ := except_bind_eq_ok.mp h
      exact congrArg (fun used => c.args.drop (position + 1 + used))
        (congrArg Prod.snd (Except.ok.inj h)).symm

/-! ## Whole sources -/

/-- What putting a source together comes to. -/
theorem load_eq_ok {c : Command} {position : Nat} {d : Device} {s : Stash} {t : FileTree}
    {src : Source} :
    load c position d s t = .ok src ↔
      ∃ blocks first, c.number position = .ok blocks ∧ c.arg (position + 1) = .ok first ∧
        ((first = "-" ∧ ∃ data, src = ⟨data, blocks, none⟩ ∧
            (pieces c position).foldlM (addPiece c s t) (Bytes.zeros (blocks * blockSize)) =
              .ok data) ∨
          (first ≠ "-" ∧ ∃ range start data, src = ⟨data, blocks, some range⟩ ∧
            blockSetOf first = .ok range ∧ range.total ≤ blocks ∧
            addDevice c d range c.args[position + 2]? (Bytes.zeros (blocks * blockSize)) =
              .ok start ∧
            (pieces c position).foldlM (addPiece c s t) start.1 = .ok data)) := by
  rw [load, except_bind_eq_ok]
  refine exists_congr fun blocks => ?_
  rw [mapError_eq_ok, exists_and_left]
  refine and_congr_right fun _ => ?_
  rw [except_bind_eq_ok]
  refine exists_congr fun first => ?_
  rw [mapError_eq_ok]
  refine and_congr_right fun hfirst => ?_
  have harg : c.args[position + 1]? = some first := by
    rw [Command.arg] at hfirst
    split at hfirst
    · rename_i value hvalue
      rw [hvalue, Except.ok.inj hfirst]
    · cases hfirst
  by_cases hdash : first = "-"
  · rw [if_pos hdash, pieces, if_pos (by rw [harg, hdash]), except_bind_eq_ok]
    refine ⟨fun ⟨data, hdata, h⟩ => .inl ⟨hdash, data, (Except.ok.inj h).symm, hdata⟩, fun h => ?_⟩
    rcases h with ⟨-, data, hsrc, hdata⟩ | ⟨hne, -⟩
    · exact ⟨data, hdata, congrArg Except.ok hsrc.symm⟩
    · exact absurd hdash hne
  · rw [if_neg hdash, pieces, if_neg (by rw [harg]; simpa using hdash), except_bind_eq_ok]
    refine ⟨fun ⟨range, hrange, h⟩ => .inr ⟨hdash, range, ?_⟩, fun h => ?_⟩
    · split_ifs at h with htotal
      · cases h
      · obtain ⟨start, hstart, h⟩ := except_bind_eq_ok.mp h
        obtain ⟨data, hdata, h⟩ := except_bind_eq_ok.mp h
        rw [drop_addDevice hstart] at hdata
        exact ⟨start, data, (Except.ok.inj h).symm, hrange, by omega, hstart, hdata⟩
    · rcases h with ⟨hne, -⟩ | ⟨-, range, start, data, hsrc, hrange, htotal, hstart, hdata⟩
      · exact absurd hne hdash
      · refine ⟨range, hrange, ?_⟩
        rw [if_neg (by omega)]
        refine except_bind_eq_ok.mpr ⟨start, hstart, except_bind_eq_ok.mpr ⟨data, ?_, ?_⟩⟩
        · rw [drop_addDevice hstart]
          exact hdata
        · exact congrArg Except.ok hsrc.symm

/-- Folds whose steps are related end in related results. -/
theorem foldlM_rel {f g : Bytes → String → Except CommandFailure Bytes}
    {R : Bytes → Bytes → Prop} {ps : List String}
    (hstep : ∀ p ∈ ps, ∀ a a' b, R a a' → f a p = .ok b → ∃ b', g a' p = .ok b' ∧ R b b')
    {a a' b : Bytes} (hR : R a a') (h : ps.foldlM f a = .ok b) :
    ∃ b', ps.foldlM g a' = .ok b' ∧ R b b' := by
  induction ps generalizing a a' with
  | nil => exact ⟨a', rfl, Except.ok.inj h ▸ hR⟩
  | cons p ps ih =>
    rw [List.foldlM_cons, except_bind_eq_ok] at h
    obtain ⟨next, hnext, h⟩ := h
    obtain ⟨next', hnext', hR'⟩ := hstep p List.mem_cons_self a a' next hR hnext
    obtain ⟨b', hb', hR''⟩ := ih (fun q hq => hstep q (List.mem_cons_of_mem p hq)) hR' h
    refine ⟨b', ?_, hR''⟩
    rw [List.foldlM_cons, except_bind_eq_ok]
    exact ⟨next', hnext', hb'⟩

section Related

variable {c : Command} {position : Nat} {d d' : Device} {s s' : Stash} {t t' : FileTree}
  {src : Source}

/-- The buffer in which the blocks of a range were put has the declared size. -/
theorem size_start {range : BlockSet} (hrange : range.Sound) {blocks : Nat}
    (htotal : range.total ≤ blocks) {locations : Option String} {out : Bytes × Nat}
    (h : addDevice c d range locations (Bytes.zeros (blocks * blockSize)) = .ok out) :
    out.1.size = blocks * blockSize := by
  have hroom : range.byteLength ≤ (Bytes.zeros (blocks * blockSize)).size := by
    rw [Bytes.size_zeros, BlockSet.byteLength]
    exact Nat.mul_le_mul_right blockSize htotal
  rw [size_addDevice hrange hroom h, Bytes.size_zeros]

theorem size_foldlM_addPiece {ps : List String} {buffer out : Bytes}
    (h : ps.foldlM (addPiece c s t) buffer = .ok out) : out.size = buffer.size := by
  induction ps generalizing buffer with
  | nil => rw [Except.ok.inj h]
  | cons p ps ih =>
    rw [List.foldlM_cons, except_bind_eq_ok] at h
    obtain ⟨next, hnext, h⟩ := h
    rw [ih h, size_addPiece hnext]

/-- **A source has the size that its command declares.** -/
theorem size_load (h : load c position d s t = .ok src) :
    src.data.size = src.blocks * blockSize := by
  obtain ⟨blocks, first, -, -, ⟨-, data, rfl, hdata⟩ | ⟨-, range, start, data, rfl, hrange, htotal,
    hstart, hdata⟩⟩ := load_eq_ok.mp h
  · rw [size_foldlM_addPiece hdata, Bytes.size_zeros]
  · rw [size_foldlM_addPiece hdata, size_start (blockSetOf_eq_ok hrange) htotal hstart]

/-- **Attempts whose steps are related end in related sources.** -/
theorem load_rel {R : Bytes → Bytes → Prop} (hrefl : ∀ b, R b b)
    (hdevice : ∀ first range buffer out, c.arg (position + 1) = .ok first →
      blockSetOf first = .ok range →
      addDevice c d range c.args[position + 2]? buffer = .ok out →
      ∃ data, addDevice c d' range c.args[position + 2]? buffer = .ok (data, out.2) ∧ R out.1 data)
    (hpiece : ∀ piece ∈ pieces c position, ∀ a a' b, a.size = src.blocks * blockSize → R a a' →
      addPiece c s t a piece = .ok b → ∃ b', addPiece c s' t' a' piece = .ok b' ∧ R b b')
    (h : load c position d s t = .ok src) :
    ∃ data, load c position d' s' t' = .ok { src with data } ∧ R src.data data := by
  -- the size of the buffer is carried along
  let R' (a a' : Bytes) : Prop := a.size = src.blocks * blockSize ∧ R a a'
  have hstep : ∀ piece ∈ pieces c position, ∀ a a' b, R' a a' → addPiece c s t a piece = .ok b →
      ∃ b', addPiece c s' t' a' piece = .ok b' ∧ R' b b' := by
    rintro piece hmem a a' b ⟨hsize, hR⟩ hb
    obtain ⟨b', hb', hR'⟩ := hpiece piece hmem a a' b hsize hR hb
    exact ⟨b', hb', (size_addPiece hb).trans hsize, hR'⟩
  obtain ⟨blocks, first, hblocks, hfirst, ⟨hdash, data, rfl, hdata⟩ |
    ⟨hdash, range, start, data, rfl, hrange, htotal, hstart, hdata⟩⟩ := load_eq_ok.mp h
  · obtain ⟨data', hdata', -, hR⟩ := foldlM_rel hstep ⟨Bytes.size_zeros _, hrefl _⟩ hdata
    exact ⟨data', load_eq_ok.mpr ⟨blocks, first, hblocks, hfirst, .inl ⟨hdash, data', rfl, hdata'⟩⟩,
      hR⟩
  · obtain ⟨start', hstart', hR⟩ := hdevice first range _ start hfirst hrange hstart
    obtain ⟨data', hdata', -, hR'⟩ := foldlM_rel hstep
      ⟨size_start (blockSetOf_eq_ok hrange) htotal hstart, hR⟩ hdata
    exact ⟨data', load_eq_ok.mpr ⟨blocks, first, hblocks, hfirst, .inr ⟨hdash, range,
      (start', start.2), data', rfl, hrange, htotal, hstart', hdata'⟩⟩, hR'⟩

/-- A device that answers reads alike gives the same source. -/
theorem load_alike {d d' : Device} (h : d.ReadsAlike d') (c : Command) (position : Nat) (s : Stash)
    (t : FileTree) : load c position d' s t = load c position d s t := by
  simp only [load, addDevice, BlockSet.readInto_alike h]

/-- **A source depends on what its range reads and on what its pieces load.** -/
theorem load_congr
    (hdevice : ∀ first range, c.arg (position + 1) = .ok first → blockSetOf first = .ok range →
      range.readInto d' = range.readInto d)
    (hpiece : ∀ piece ∈ pieces c position, ∀ id text, Blank.splitFirst? ':' piece = some (id, text) →
      ∀ size, s'.load? t' id size = s.load? t id size)
    (h : load c position d s t = .ok src) : load c position d' s' t' = .ok src := by
  have hstart : ∀ first range buffer out, c.arg (position + 1) = .ok first →
      blockSetOf first = .ok range → addDevice c d range c.args[position + 2]? buffer = .ok out →
      ∃ data, addDevice c d' range c.args[position + 2]? buffer = .ok (data, out.2) ∧
        out.1 = data := by
    intro first range buffer out hfirst hrange hout
    refine ⟨out.1, ?_, rfl⟩
    simp only [addDevice, hdevice first range hfirst hrange]
    exact hout
  have hstep : ∀ piece ∈ pieces c position, ∀ a a' b, a.size = src.blocks * blockSize → a = a' →
      addPiece c s t a piece = .ok b → ∃ b', addPiece c s' t' a' piece = .ok b' ∧ b = b' := by
    rintro piece hmem a a' b - rfl hb
    obtain ⟨id, text, locations, found, hsplit, hset, hload, h⟩ := addPiece_eq_ok.mp hb
    exact ⟨b, addPiece_eq_ok.mpr ⟨id, text, locations, found, hsplit, hset,
      (hpiece piece hmem id text hsplit _).trans hload, h⟩, rfl⟩
  obtain ⟨data, hload, hdata⟩ := load_rel (fun _ => rfl) hstart hstep h
  rw [hload, ← hdata]

/-- **Whether there is a source** does not depend on what the device holds, nor on what a piece
loads if its locations are inside the source. -/
theorem load_elsewhere
    (hpiece : ∀ piece ∈ pieces c position, ∀ id text locations,
      Blank.splitFirst? ':' piece = some (id, text) → blockSetOf text = .ok locations →
      s'.load? t' id locations.byteLength = s.load? t id locations.byteLength ∨
        (∃ found, s'.load? t' id locations.byteLength = .ok found ∧
          ∀ data, found = some data → data.size = locations.byteLength) ∧
        ∀ r ∈ locations.ranges, r.byteStart + r.byteLength ≤ src.blocks * blockSize)
    (h : load c position d s t = .ok src) (d' : Device) :
    ∃ data, load c position d' s' t' = .ok { src with data } := by
  have hstep : ∀ piece ∈ pieces c position, ∀ a a' b, a.size = src.blocks * blockSize →
      a'.size = a.size → addPiece c s t a piece = .ok b →
      ∃ b', addPiece c s' t' a' piece = .ok b' ∧ b'.size = b.size := by
    intro piece hmem a a' b hsize ha' hb
    obtain ⟨id, text, locations, found, hsplit, hset, hload, hb⟩ := addPiece_eq_ok.mp hb
    have hkeep : ∀ {data out}, scatter c locations data a' = .ok out → out.size = a'.size :=
      fun hout => size_scatterRanges (scatter_eq_ok.mp hout)
    have hbsize : b.size = a.size := by
      cases found with
      | some data => exact size_scatterRanges (scatter_eq_ok.mp hb)
      | none => rw [hb]
    rcases hpiece piece hmem id text locations hsplit hset with hsame | ⟨⟨other, hother, hfull⟩, hfits⟩
    · cases found with
      | none =>
        exact ⟨a', addPiece_eq_ok.mpr ⟨id, text, locations, none, hsplit, hset, hsame.trans hload,
          rfl⟩, ha'.trans hbsize.symm⟩
      | some data =>
        obtain ⟨b', hb', hsize'⟩ := scatter_elsewhere hb rfl ha'
        exact ⟨b', addPiece_eq_ok.mpr ⟨id, text, locations, some data, hsplit, hset,
          hsame.trans hload, hb'⟩, hsize'⟩
    · cases other with
      | none =>
        exact ⟨a', addPiece_eq_ok.mpr ⟨id, text, locations, none, hsplit, hset, hother, rfl⟩,
          ha'.trans hbsize.symm⟩
      | some data =>
        have hroom : 0 + rangesLength locations.ranges ≤ data.size := by
          have hsize := hfull data rfl
          have hlength := (blockSetOf_eq_ok hset).byteLength_eq
          omega
        obtain ⟨b', hb'⟩ := scatterRanges_of_fits (by rwa [ha', hsize]) hroom
        have hb' := scatter_eq_ok (c := c).mpr hb'
        exact ⟨b', addPiece_eq_ok.mpr ⟨id, text, locations, some data, hsplit, hset, hother, hb'⟩,
          (hkeep hb').trans (ha'.trans hbsize.symm)⟩
  obtain ⟨data, hload, -⟩ := load_rel (R := fun a a' => a'.size = a.size) (fun _ => rfl)
    (fun first range buffer out _ hrange hout =>
      addDevice_elsewhere (blockSetOf_eq_ok hrange) hout d') hstep h
  exact ⟨data, hload⟩

end Related

end Source

end BlockUpdate
