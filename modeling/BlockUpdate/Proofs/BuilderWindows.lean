import BlockUpdate.Proofs.ImagePatchRoundTrip

/-!
# Windows of chunks that were built

A chunk is diffed against a window when it is added, and the length of the window is written when
the patch is built. The two lengths are computed apart: for a range that ends before it starts the
first is zero and the second does not exist.

- `SourceRange.Ordered`: a range does not end before it starts. **`ImageBuilder.build_isSome_iff`**:
  there is a patch exactly if all ranges are such.
- `PendingChunk.encode_of_place`, `ImageBuilder.build_split`: where a window is written, and where
  its block patch lies.
- `ImageCall.Described`: a header says what a block patch was made from.
- **`ImageBuilder.build_describes`**: in a patch every header does, and a range that ends before it
  starts is accepted and leaves no patch.
-/

namespace BlockUpdate

/-! ## Ranges -/

/-- The range does not end before it starts. -/
def SourceRange.Ordered (r : SourceRange) : Prop := r.start ≤ r.stop

theorem SourceRange.length?_eq_some {r : SourceRange} {length : Nat} :
    r.length? = some length ↔ r.Ordered ∧ r.window.length = length := by
  rw [length?, Ordered, window]
  split <;> rename_i h
  · exact ⟨fun hlength => ⟨h, Option.some.inj hlength⟩, fun ⟨_, hlength⟩ => congrArg some hlength⟩
  · exact ⟨(fun hlength => by cases hlength), fun ⟨hordered, _⟩ => absurd hordered h⟩

namespace PendingChunk

variable {chunk : PendingChunk} {source : SourceRange} {offset : Nat} {placed : Chunk}

/-- The part of the old image that a chunk is about; a raw chunk has none. -/
def source? : PendingChunk → Option SourceRange
  | .normal source _ | .deflate source _ _ _ _ | .lz4 source _ _ _ _ => some source
  | .raw _ => none

/-- The range of the chunk, if it has one, does not end before it starts. -/
def Ordered (chunk : PendingChunk) : Prop := ∀ source ∈ chunk.source?, source.Ordered

/-- All chunks about a part of the old image are placed alike: behind the number of its kind a
header says the window and where the block patch lies. -/
theorem place_eq_map (hsource : source ∈ chunk.source?) (offset : Nat) :
    ∃ header : Nat → Chunk, chunk.place offset = source.length?.map header ∧
      ∀ length, ∃ rest, (header length).encode =
        LittleEndian.encode 4 (header length).kindNumber ++
          (Chunk.encodeWords [source.start, length, offset] ++ rest) := by
  have hmember (length expanded target : Nat) (fields : Bytes) :
      Chunk.encodeMember ⟨⟨source.start, length⟩, offset, expanded, target⟩ ++ fields =
        Chunk.encodeWords [source.start, length, offset] ++
          (Chunk.encodeWords [expanded, target] ++ fields) := by
    rw [← ByteArray.append_assoc, ← Chunk.encodeWords_append]
    rfl
  cases chunk with
  | raw data => cases hsource
  | normal source patch =>
    cases hsource
    refine ⟨fun length => .normal ⟨source.start, length⟩ offset, ?_, fun length =>
      ⟨ByteArray.empty, by rw [ByteArray.append_empty]; rfl⟩⟩
    rw [place]
    cases source.length? <;> rfl
  | deflate source expanded target params patch =>
    cases hsource
    refine ⟨fun length => .deflate (params.container == .gzip)
      ⟨⟨source.start, length⟩, offset, expanded, target⟩ params, ?_, fun length =>
      ⟨_, congrArg _ (hmember length expanded target _)⟩⟩
    rw [place]
    cases source.length? <;> rfl
  | lz4 source expanded target params patch =>
    cases hsource
    refine ⟨fun length => .lz4 ⟨⟨source.start, length⟩, offset, expanded, target⟩ params, ?_,
      fun length => ⟨_, congrArg _ (hmember length expanded target _)⟩⟩
    rw [place]
    cases source.length? <;> rfl

/-- **A chunk is placed** unless its range ends before it starts. -/
theorem place_isSome_iff : (∃ placed, chunk.place offset = some placed) ↔ chunk.Ordered := by
  rcases hsource : chunk.source? with _ | source
  · cases chunk with
    | raw data => exact ⟨fun _ _ h => (Option.not_mem_none _ h).elim, fun _ => ⟨_, rfl⟩⟩
    | _ => cases hsource
  · obtain ⟨header, hplace, -⟩ := place_eq_map hsource offset
    simp only [hplace, Ordered, hsource, Option.mem_def, Option.some_inj, forall_eq',
      Option.map_eq_some_iff, SourceRange.length?_eq_some]
    exact ⟨fun ⟨_, _, h, _⟩ => h.1, fun h => ⟨_, _, ⟨h, rfl⟩, rfl⟩⟩

/-- **What the header of a placed chunk says** of its window and of its block patch. -/
theorem encode_of_place (h : chunk.place offset = some placed) (hsource : source ∈ chunk.source?) :
    ∃ rest, placed.encode = LittleEndian.encode 4 placed.kindNumber ++
      (Chunk.encodeWords [source.start, source.window.length, offset] ++ rest) := by
  obtain ⟨header, hplace, hencode⟩ := place_eq_map hsource offset
  obtain ⟨length, hlength, rfl⟩ := Option.map_eq_some_iff.mp (hplace.symm.trans h)
  obtain ⟨-, rfl⟩ := SourceRange.length?_eq_some.mp hlength
  exact hencode _

end PendingChunk

/-! ## Patches -/

namespace ImageBuilder

variable {b : ImageBuilder} {chunk : PendingChunk} {chunks front back : List PendingChunk}
  {source : SourceRange} {offset : Nat} {placed : List Chunk} {patch : Bytes}

theorem placeAll_isSome_iff (offset : Nat) :
    (∃ placed, placeAll offset chunks = some placed) ↔ ∀ chunk ∈ chunks, chunk.Ordered := by
  induction chunks generalizing offset with
  | nil => exact ⟨fun _ _ h => absurd h List.not_mem_nil, fun _ => ⟨[], rfl⟩⟩
  | cons chunk chunks ih =>
    simp only [placeAll_cons_eq_some]
    rw [List.forall_mem_cons, ← PendingChunk.place_isSome_iff,
      ← ih (offset + chunk.blockPatch.size)]
    constructor
    · rintro ⟨_, first, others, hfirst, hothers, -⟩
      exact ⟨⟨first, hfirst⟩, others, hothers⟩
    · rintro ⟨⟨first, hfirst⟩, others, hothers⟩
      exact ⟨_, first, others, hfirst, hothers, rfl⟩

/-- **There is a patch** unless the range of some chunk ends before it starts. -/
theorem build_isSome_iff :
    (∃ patch, b.build = some patch) ↔ ∀ chunk ∈ b.chunks, chunk.Ordered := by
  -- where the block patches begin makes no difference to whether the chunks can be placed
  rw [← placeAll_isSome_iff (headersSize b.chunks)]
  constructor
  · rintro ⟨patch, h⟩
    obtain ⟨placed, hplaced, -⟩ := Option.bind_eq_some_iff.mp h
    exact ⟨placed, hplaced⟩
  · rintro ⟨placed, hplaced⟩
    exact ⟨_, Option.bind_eq_some_iff.mpr ⟨placed, hplaced, rfl⟩⟩

/-- A chunk in the middle is placed behind the block patches of those before it. -/
theorem placeAll_append (h : placeAll offset (front ++ chunk :: back) = some placed) :
    ∃ before first after, placeAll offset front = some before ∧
      chunk.place (offset + (Bytes.join (front.map PendingChunk.blockPatch)).size) = some first ∧
      placed = before ++ first :: after := by
  induction front generalizing offset placed with
  | nil =>
    obtain ⟨first, others, hfirst, -, rfl⟩ := placeAll_cons_eq_some.mp h
    exact ⟨[], first, others, rfl, hfirst, rfl⟩
  | cons c front ih =>
    obtain ⟨c', others, hc, hothers, rfl⟩ := placeAll_cons_eq_some.mp h
    obtain ⟨before, first, after, hbefore, hfirst, rfl⟩ := ih hothers
    refine ⟨c' :: before, first, after,
      placeAll_cons_eq_some.mpr ⟨c', before, hc, hbefore, rfl⟩, ?_, rfl⟩
    rwa [List.map_cons, Bytes.join_cons, ByteArray.size_append, ← Nat.add_assoc]

/-- **A patch around one of its chunks**: behind the headers of those before it and the number of
its kind, its header says its window, and the place of its block patch. -/
theorem build_split (h : build ⟨front ++ chunk :: back⟩ = some patch)
    (hsource : source ∈ chunk.source?) :
    ∃ offset x y z, x.size = headersSize front + 4 ∧
      patch = x ++ (Chunk.encodeWords [source.start, source.window.length, offset] ++ y) ∧
      patch.dropFirst offset = chunk.blockPatch ++ z := by
  obtain ⟨placed, hplaced, h⟩ := Option.bind_eq_some_iff.mp h
  obtain rfl := Option.some.inj h
  have hsize := size_encode_of_placeAll hplaced
  obtain ⟨before, first, after, hbefore, hfirst, rfl⟩ := placeAll_append hplaced
  obtain ⟨rest, hencode⟩ := PendingChunk.encode_of_place hfirst hsource
  refine ⟨headersSize (front ++ chunk :: back) +
      (Bytes.join (front.map PendingChunk.blockPatch)).size,
    ImagePatch.magic ++ LittleEndian.encode 4 (front ++ chunk :: back).length ++
      Bytes.join (before.map Chunk.encode) ++ LittleEndian.encode 4 first.kindNumber,
    rest ++ (Bytes.join (after.map Chunk.encode) ++
      Bytes.join ((front ++ chunk :: back).map PendingChunk.blockPatch)),
    Bytes.join (back.map PendingChunk.blockPatch), ?_, ?_, ?_⟩
  · simp only [ByteArray.size_append, size_magic, LittleEndian.size_encode,
      size_encode_of_placeAll hbefore, headersSize]
  · rw [List.map_append (f := Chunk.encode), List.map_cons, Bytes.join_append, Bytes.join_cons,
      hencode]
    simp only [ByteArray.append_assoc]
  · -- the block patches begin where the headers end, this one behind those of the chunks before it
    rw [← Bytes.dropFirst_dropFirst, Bytes.dropFirst_of_append rfl (by
      simp only [ByteArray.size_append, size_magic, LittleEndian.size_encode, hsize, headersSize]),
      List.map_append, List.map_cons, Bytes.join_append, Bytes.join_cons, Bytes.dropFirst_append]

end ImageBuilder

/-! ## Calls -/

namespace ImageCall

variable {P : Primitives} {old : Bytes} {call : ImageCall} {source : SourceRange}

/-- The part of the old image that a call is about; literal bytes have none. -/
def source? : ImageCall → Option SourceRange
  | .normal source _ | .deflate source _ _ | .lz4 source _ _ => some source
  | .raw _ => none

/-- The range of the call, if it has one, does not end before it starts. -/
def Ordered (call : ImageCall) : Prop := ∀ source ∈ call.source?, source.Ordered

/-- What a call diffs against: the window itself, or what is in the member there. -/
def contents (P : Primitives) (window : Bytes) : ImageCall → Except PatchError Bytes
  | .normal _ _ => .ok window
  | .raw _ => .ok ByteArray.empty
  | .deflate _ params _ => Member.inflate P params.container window none
  | .lz4 _ params _ => Member.unlz4 P params window none

/-- What a call is to make of that. -/
def target : ImageCall → Bytes
  | .normal _ target | .raw target | .deflate _ _ target | .lz4 _ _ target => target

theorem Adds.source?_eq {chunk : PendingChunk} (h : call.Adds P old chunk) :
    chunk.source? = call.source? := by
  cases h <;> rfl

/-- A call about a part of the old image has a window there, and its block patch was made from
that. -/
theorem Adds.window {chunk : PendingChunk} (h : call.Adds P old chunk)
    (hsource : source ∈ call.source?) :
    ∃ window contents, ImagePatch.sourceWindow old source.window = .ok window ∧
      call.contents P window = .ok contents ∧
      chunk.blockPatch = BlockPatch.generate P contents call.target := by
  cases h with
  | normal window_eq =>
    cases hsource
    exact ⟨_, _, window_eq, rfl, rfl⟩
  | raw => cases hsource
  | deflate window_eq contents_eq =>
    cases hsource
    exact ⟨_, _, window_eq, contents_eq, rfl⟩
  | lz4 window_eq contents_eq =>
    cases hsource
    exact ⟨_, _, window_eq, contents_eq, rfl⟩

/-- **A header describes a call**: at its place in a patch it says where the window of the call
starts and how long that is, and where the block patch lies that was made from it. -/
def Described (P : Primitives) (old patch : Bytes) (start : Nat) (call : ImageCall)
    (source : SourceRange) : Prop :=
  ∃ window contents offset rest,
    ImagePatch.sourceWindow old source.window = .ok window ∧
    call.contents P window = .ok contents ∧
    LittleEndian.read? patch (start + 4) 8 = some source.start ∧
    LittleEndian.read? patch (start + 12) 8 = some window.size ∧
    LittleEndian.read? patch (start + 20) 8 = some offset ∧
    patch.dropFirst offset = BlockPatch.generate P contents call.target ++ rest

/-- Calls around one of them: its chunk stands behind those of the calls before it. -/
theorem runAll_append_eq_ok {front back : List ImageCall} {b : ImageBuilder}
    (h : runAll P old (front ++ call :: back) {} = .ok b) :
    ∃ before chunk after, runAll P old front {} = .ok before ∧ call.Adds P old chunk ∧
      b = ⟨before.chunks ++ chunk :: after⟩ := by
  rw [runAll, List.foldlM_append] at h
  obtain ⟨before, hfront, h⟩ := except_bind_eq_ok.mp h
  rw [List.foldlM_cons] at h
  obtain ⟨b', hcall, hback⟩ := except_bind_eq_ok.mp h
  obtain ⟨chunk, hadds, hchunk⟩ := run_eq_ok hcall
  obtain ⟨after, -, hafter⟩ := runAll_eq_ok hback
  refine ⟨before, chunk, after, hfront, hadds, ?_⟩
  rw [hchunk, List.append_assoc] at hafter
  exact congrArg ImageBuilder.mk hafter

/-- The ranges of calls are those of their chunks. -/
theorem forall_ordered_iff {calls : List ImageCall} {chunks : List PendingChunk}
    (h : List.Forall₂ (Adds P old) calls chunks) :
    (∀ chunk ∈ chunks, chunk.Ordered) ↔ ∀ call ∈ calls, call.Ordered := by
  induction h with
  | nil => exact ⟨fun _ _ h => absurd h List.not_mem_nil, fun _ _ h => absurd h List.not_mem_nil⟩
  | cons hadds _ ih =>
    rw [List.forall_mem_cons, List.forall_mem_cons, ih, PendingChunk.Ordered, hadds.source?_eq,
      Ordered]

/-- A range that ends before it starts is taken for an empty window, if it starts within the old
image. -/
theorem run_normal_of_reversed (P : Primitives) (b : ImageBuilder) {source : SourceRange}
    (hreversed : source.stop < source.start) (hin : source.start ≤ old.size) (target : Bytes) :
    ∃ b', (normal source target).run P old b = .ok b' := by
  obtain ⟨window, hslice⟩ : ∃ window,
      old.slice? source.start (source.stop - source.start) = some window :=
    ⟨_, if_pos (by omega)⟩
  have hwindow : ImagePatch.sourceWindow old source.window = .ok window := by
    rw [ImagePatch.sourceWindow, SourceRange.window, hslice]
  exact ⟨_, except_bind_eq_ok.mpr ⟨window, hwindow, rfl⟩⟩

end ImageCall

namespace ImageBuilder

/-- **What calls leave to be built.** There is a patch exactly if no range of a call ends before it
starts. Its headers then say the windows that the block patches were made from. A call with a range
that ends before it starts is accepted all the same, and from then on there is no patch. -/
theorem build_describes {P : Primitives} {old : Bytes} {calls : List ImageCall} {b : ImageBuilder}
    (hold : old.size < 2 ^ 64) (hrun : ImageCall.runAll P old calls {} = .ok b) :
    ((∃ patch, b.build = some patch) ↔ ∀ call ∈ calls, call.Ordered) ∧
    (∀ patch, b.build = some patch → patch.size < 2 ^ 64 →
      ∀ front call back, calls = front ++ call :: back → ∀ source ∈ call.source?,
        ∃ before, ImageCall.runAll P old front {} = .ok before ∧
          call.Described P old patch (headersSize before.chunks) source) ∧
    ∀ source target, source.stop < source.start → source.start ≤ old.size →
      ∃ b', (ImageCall.normal source target).run P old b = .ok b' ∧ b'.build = none := by
  refine ⟨?_, ?_, fun source target hreversed hin => ?_⟩
  · obtain ⟨chunks, hadds, hchunks⟩ := ImageCall.runAll_eq_ok hrun
    rw [build_isSome_iff, hchunks, List.nil_append, ImageCall.forall_ordered_iff hadds]
  · rintro patch hbuild hsize front call back rfl source hsource
    obtain ⟨before, chunk, after, hbefore, hadds, rfl⟩ := ImageCall.runAll_append_eq_ok hrun
    obtain ⟨window, contents, hwindow, hcontents, hpatch⟩ := hadds.window hsource
    obtain ⟨hin, hlength⟩ := ImagePatch.sourceWindow_eq_ok hwindow
    obtain ⟨offset, x, y, z, hx, hsplit, hat⟩ := build_split hbuild (hadds.source?_eq ▸ hsource)
    rw [hpatch] at hat
    obtain ⟨-, hoffset, -⟩ := ImagePatch.blockPatchAt_generate hat
    replace hin : source.start + source.window.length ≤ old.size := hin
    rw [← hlength] at hsplit
    refine ⟨before, hbefore, window, contents, offset, z, hwindow, hcontents, ?_, ?_, ?_, hat⟩
    · exact Chunk.read?_encodeWords [] hsplit (by simp [hx]) (by omega)
    · exact Chunk.read?_encodeWords [source.start] hsplit (by simp [hx]) (by omega)
    · exact Chunk.read?_encodeWords [source.start, window.size] hsplit (by simp [hx])
        (by omega)
  · obtain ⟨b', hcall⟩ := ImageCall.run_normal_of_reversed P b hreversed hin target
    obtain ⟨chunk, hadds, hchunks⟩ := ImageCall.run_eq_ok hcall
    refine ⟨b', hcall, Option.eq_none_iff_forall_ne_some.mpr fun patch hbuild => ?_⟩
    have hordered := build_isSome_iff.mp ⟨patch, hbuild⟩ chunk (by simp [hchunks]) source
      (hadds.source?_eq ▸ rfl)
    exact absurd hordered (Nat.not_le.mpr hreversed)

/-- Behind a normal chunk and a raw one, the header of a member begins at 49. One more call, whose
range ends before it starts, is accepted, and then nothing is built. -/
theorem build_describes_sample :
    ∃ b patch b', ImageCall.runAll samplePrimitives sampleImage sampleCalls {} = .ok b ∧
      b.build = some patch ∧
      (ImageCall.deflate ⟨2, 24⟩ (.gzip 6) (Bytes.ofText "abc")).Described samplePrimitives
        sampleImage patch 49 ⟨2, 24⟩ ∧
      (ImageCall.normal ⟨2, 1⟩ (Bytes.ofText "abc")).run samplePrimitives sampleImage b = .ok b' ∧
      b'.build = none := by
  obtain ⟨hbuild, hdescribed, hreversed⟩ := build_describes (by decide) runAll_sample
  obtain ⟨patch, hpatch⟩ := hbuild.mpr (by
    simp [sampleCalls, ImageCall.Ordered, ImageCall.source?, SourceRange.Ordered])
  have hsize : patch.size < 2 ^ 64 := by
    rw [size_of_build hpatch]
    simp only [List.map_cons, List.map_nil, Bytes.join_cons, Bytes.join_nil,
      PendingChunk.blockPatch, ByteArray.size_append, size_samplePatch]
    decide
  obtain ⟨before, hbefore, hmember⟩ :=
    hdescribed patch hpatch hsize [_, _] _ [_, _] rfl ⟨2, 24⟩ rfl
  obtain rfl : ⟨[.normal ⟨0, 2⟩ samplePatch, .raw (Bytes.ofText "-")]⟩ = before :=
    Except.ok.inj hbefore
  obtain ⟨b', hcall, hnone⟩ := hreversed ⟨2, 1⟩ (Bytes.ofText "abc") (by decide) (by decide)
  exact ⟨_, patch, b', runAll_sample, hpatch, hmember, hcall, hnone⟩

end ImageBuilder

end BlockUpdate
