import BlockUpdate.Patch.Builder
import BlockUpdate.Proofs.BlockPatchRoundTrip
import BlockUpdate.Proofs.ChunkHeaders
import BlockUpdate.Proofs.LegacyFraming
import Mathlib

/-!
# Image patches rebuild their targets

A patch is assembled by calls to a builder and applied chunk by chunk. Between the two stand the
headers, which say where each block patch lies; the builder knows that only at the end, and an
application reads each header before it turns to the block patch that it names.

- `ImageCall`: a call to the builder; `ImageCall.Adds` is the chunk that it adds.
- `ImageCall.Makes`: what a call stands for in the new image.
- `PendingChunk.size_encode_of_place`, `ImageBuilder.size_of_build`: the sizes that places are
  counted from.
- `CodecLaws`: what is taken of the codecs.
- **`ImageCall.Adds.apply`**: one chunk, read with its block patch in place, makes what its call
  stands for.
- **`ImageBuilder.applyChunks_emits`**: all chunks in order. **`ImageBuilder.apply_build`** says it
  of a whole patch.
-/

namespace BlockUpdate

open Emit (Emits)

/-! ## Calls to the builder -/

/-- One call to the builder of an image patch. -/
inductive ImageCall
  | normal (source : SourceRange) (target : Bytes)
  | raw (data : Bytes)
  | deflate (source : SourceRange) (params : DeflateParams) (target : Bytes)
  | lz4 (source : SourceRange) (params : Lz4Params) (target : Bytes)

namespace ImageCall

/-- Makes a call. -/
def run (P : Primitives) (old : Bytes) (b : ImageBuilder) :
    ImageCall → Except PatchError ImageBuilder
  | .normal source target => b.normal P old source target
  | .raw data => .ok (b.raw data)
  | .deflate source params target => b.deflate P old source params target
  | .lz4 source params target => b.lz4 P old source params target

/-- Makes calls one after the other. -/
def runAll (P : Primitives) (old : Bytes) (calls : List ImageCall) (b : ImageBuilder) :
    Except PatchError ImageBuilder :=
  calls.foldlM (run P old) b

/-- The ranges of a call do not end before they start, and its byte strings and numbers, with the
contents of a member that it is about, are such as memory and the fields of a header hold. -/
def Fits (P : Primitives) (old : Bytes) : ImageCall → Prop
  | .normal source target => source.start ≤ source.stop ∧ target.size < 2 ^ 63
  | .raw data => data.size < 2 ^ 32
  | .deflate source params target =>
    source.start ≤ source.stop ∧ target.size < 2 ^ 63 ∧ params.Fits ∧
      ∀ window contents, ImagePatch.sourceWindow old source.window = .ok window →
        Member.inflate P params.container window none = .ok contents → contents.size < 2 ^ 63
  | .lz4 source params target =>
    source.start ≤ source.stop ∧ target.size < 2 ^ 63 ∧ params.Fits ∧
      ∀ window contents, ImagePatch.sourceWindow old source.window = .ok window →
        Member.unlz4 P params window none = .ok contents → contents.size < 2 ^ 63

/-- The parameters that a member is compressed with again: those of the call, with gzip framing
spelled in one way. -/
def packingParams (params : DeflateParams) : DeflateParams :=
  ImagePatch.effectiveParams (params.container == .gzip) params

/-- **What a call stands for in the new image**: its target, its literal bytes, or one complete
member, from the opening of a compressor to its end, that expands to its target. -/
def Makes (P : Primitives) : ImageCall → Bytes → Prop
  | .normal _ target, out => out = target
  | .raw data, out => out = data
  | .deflate _ params target, out =>
    (∃ pieces, (Adapter.deflate P (packingParams params)).Packs pieces out) ∧
      Member.inflate P params.container out none = .ok target
  | .lz4 _ params target, out =>
    (∃ pieces, (Adapter.lz4 P params).Packs pieces out) ∧
      Member.unlz4 P params out none = .ok target

/-- The chunk that a successful call adds. -/
inductive Adds (P : Primitives) (old : Bytes) : ImageCall → PendingChunk → Prop
  | normal {source : SourceRange} {target window : Bytes}
      (window_eq : ImagePatch.sourceWindow old source.window = .ok window) :
      Adds P old (.normal source target) (.normal source (BlockPatch.generate P window target))
  | raw {data : Bytes} : Adds P old (.raw data) (.raw data)
  | deflate {source : SourceRange} {params : DeflateParams} {target window contents : Bytes}
      (window_eq : ImagePatch.sourceWindow old source.window = .ok window)
      (contents_eq : Member.inflate P params.container window none = .ok contents) :
      Adds P old (.deflate source params target)
        (.deflate source contents.size target.size params (BlockPatch.generate P contents target))
  | lz4 {source : SourceRange} {params : Lz4Params} {target window contents : Bytes}
      (window_eq : ImagePatch.sourceWindow old source.window = .ok window)
      (contents_eq : Member.unlz4 P params window none = .ok contents) :
      Adds P old (.lz4 source params target)
        (.lz4 source contents.size target.size params (BlockPatch.generate P contents target))

variable {P : Primitives} {old : Bytes}

theorem run_eq_ok {call : ImageCall} {b b' : ImageBuilder} (h : call.run P old b = .ok b') :
    ∃ chunk, call.Adds P old chunk ∧ b'.chunks = b.chunks ++ [chunk] := by
  cases call with
  | normal source target =>
    obtain ⟨window, hwindow, h⟩ := except_bind_eq_ok.mp h
    cases h
    exact ⟨_, .normal hwindow, rfl⟩
  | raw data =>
    cases h
    exact ⟨_, .raw, rfl⟩
  | deflate source params target =>
    obtain ⟨window, hwindow, h⟩ := except_bind_eq_ok.mp h
    obtain ⟨contents, hcontents, h⟩ := except_bind_eq_ok.mp h
    cases h
    exact ⟨_, .deflate hwindow hcontents, rfl⟩
  | lz4 source params target =>
    obtain ⟨window, hwindow, h⟩ := except_bind_eq_ok.mp h
    obtain ⟨contents, hcontents, h⟩ := except_bind_eq_ok.mp h
    cases h
    exact ⟨_, .lz4 hwindow hcontents, rfl⟩

/-- Successful calls add one chunk each, in their order. -/
theorem runAll_eq_ok {calls : List ImageCall} {b b' : ImageBuilder}
    (h : runAll P old calls b = .ok b') :
    ∃ chunks, List.Forall₂ (Adds P old) calls chunks ∧ b'.chunks = b.chunks ++ chunks := by
  induction calls generalizing b with
  | nil =>
    cases h
    exact ⟨[], .nil, (List.append_nil _).symm⟩
  | cons call rest ih =>
    obtain ⟨b₁, hcall, hrest⟩ := except_bind_eq_ok.mp h
    obtain ⟨chunk, hadds, hchunk⟩ := run_eq_ok hcall
    obtain ⟨chunks, hall, hchunks⟩ := ih hrest
    refine ⟨chunk :: chunks, .cons hadds hall, ?_⟩
    rw [hchunks, hchunk, List.append_assoc]
    rfl

end ImageCall

/-! ## Placed chunks -/

/-- **A header is as long as was planned**, wherever the block patch is placed. -/
theorem PendingChunk.size_encode_of_place {chunk : PendingChunk} {offset : Nat} {placed : Chunk}
    (h : chunk.place offset = some placed) : placed.encode.size = chunk.headerSize := by
  cases chunk with
  | normal source patch =>
    obtain ⟨length, -, h⟩ := Option.bind_eq_some_iff.mp h
    cases h
    rw [Chunk.encode, ByteArray.size_append, LittleEndian.size_encode, Chunk.size_encodeWords]
    rfl
  | raw data =>
    cases h
    rw [Chunk.encode, ByteArray.size_append, ByteArray.size_append, LittleEndian.size_encode,
      LittleEndian.size_encode, ← Nat.add_assoc]
    rfl
  | deflate source expanded target params patch =>
    obtain ⟨length, -, h⟩ := Option.bind_eq_some_iff.mp h
    cases h
    rw [Chunk.encode, ByteArray.size_append, ByteArray.size_append, LittleEndian.size_encode,
      Chunk.encodeMember, Chunk.size_encodeWords, Chunk.size_encodeFields]
    rfl
  | lz4 source expanded target params patch =>
    obtain ⟨length, -, h⟩ := Option.bind_eq_some_iff.mp h
    cases h
    rw [Chunk.encode, ByteArray.size_append, ByteArray.size_append, LittleEndian.size_encode,
      Chunk.encodeMember, Chunk.size_encodeWords, Chunk.size_encodeFields]
    rfl

namespace ImageBuilder

theorem placeAll_cons_eq_some {offset : Nat} {chunk : PendingChunk} {chunks : List PendingChunk}
    {placed : List Chunk} :
    placeAll offset (chunk :: chunks) = some placed ↔
      ∃ first others, chunk.place offset = some first ∧
        placeAll (offset + chunk.blockPatch.size) chunks = some others ∧
          first :: others = placed := by
  rw [placeAll]
  constructor
  · intro h
    obtain ⟨first, hfirst, h⟩ := Option.bind_eq_some_iff.mp h
    obtain ⟨others, hothers, h⟩ := Option.bind_eq_some_iff.mp h
    exact ⟨first, others, hfirst, hothers, Option.some.inj h⟩
  · rintro ⟨first, others, hfirst, hothers, rfl⟩
    rw [hfirst]
    dsimp only [Option.bind_eq_bind, Option.bind_some]
    rw [hothers]
    rfl

theorem size_encode_of_placeAll {offset : Nat} {chunks : List PendingChunk} {placed : List Chunk}
    (h : placeAll offset chunks = some placed) :
    (Bytes.join (placed.map Chunk.encode)).size = (chunks.map PendingChunk.headerSize).sum := by
  induction chunks generalizing offset placed with
  | nil =>
    cases h
    rfl
  | cons chunk chunks ih =>
    obtain ⟨first, others, hfirst, hothers, rfl⟩ := placeAll_cons_eq_some.mp h
    rw [List.map_cons, Bytes.join_cons, ByteArray.size_append,
      PendingChunk.size_encode_of_place hfirst, ih hothers, List.map_cons, List.sum_cons]

theorem size_magic : ImagePatch.magic.size = 8 := by decide

/-- **The size of a patch**: its headers, and all block patches behind them. -/
theorem size_of_build {b : ImageBuilder} {patch : Bytes} (h : b.build = some patch) :
    patch.size =
      headersSize b.chunks + (Bytes.join (b.chunks.map PendingChunk.blockPatch)).size := by
  obtain ⟨placed, hplaced, h⟩ := Option.bind_eq_some_iff.mp h
  cases h
  simp only [ByteArray.size_append, size_magic, LittleEndian.size_encode,
    size_encode_of_placeAll hplaced, headersSize]

end ImageBuilder

namespace SourceRange

theorem length?_eq {r : SourceRange} (h : r.start ≤ r.stop) : r.length? = some (r.stop - r.start) :=
  if_pos h

end SourceRange

namespace ImagePatch

variable {P : Primitives} {old : Bytes}

theorem sourceWindow_eq_ok {w : Window} {window : Bytes} (h : sourceWindow old w = .ok window) :
    w.start + w.length ≤ old.size ∧ window.size = w.length := by
  unfold sourceWindow at h
  split at h
  · rename_i found hslice
    cases h
    refine ⟨?_, Bytes.size_of_slice? hslice⟩
    by_contra hout
    rw [Bytes.slice?, if_neg hout] at hslice
    cases hslice
  · cases h

theorem window_fits (hold : old.size < 2 ^ 63) {w : Window} {window : Bytes}
    (h : sourceWindow old w = .ok window) : w.Fits := by
  obtain ⟨hin, -⟩ := sourceWindow_eq_ok h
  constructor <;> omega

end ImagePatch

namespace ImageCall

variable {P : Primitives} {old : Bytes}

/-- The chunk of a call whose range does not end before it starts is placed anywhere. -/
theorem Adds.place {call : ImageCall} {chunk : PendingChunk} (h : call.Adds P old chunk)
    (hfits : call.Fits P old) (offset : Nat) : ∃ placed, chunk.place offset = some placed := by
  cases h with
  | normal => exact ⟨_, by rw [PendingChunk.place, SourceRange.length?_eq hfits.1]; rfl⟩
  | raw => exact ⟨_, rfl⟩
  | deflate => exact ⟨_, by rw [PendingChunk.place, SourceRange.length?_eq hfits.1]; rfl⟩
  | lz4 => exact ⟨_, by rw [PendingChunk.place, SourceRange.length?_eq hfits.1]; rfl⟩

end ImageCall

/-! ## What a chunk makes -/

/-- What image patches rely on in the codecs: decoding inverts encoding, however the input of an
encoder is cut, and for block patches also when further bytes follow. -/
structure CodecLaws (P : Primitives) : Prop where
  bzip2 : ∀ data rest, (P.bunzip2 (P.bzip2 data ++ rest)).bytes = data
  deflate : ∀ (params : DeflateParams) (pieces : List Bytes),
    P.inflate params.container ((P.deflater params).encode pieces) = ⟨Bytes.join pieces, false⟩
  lz4Frame : ∀ (params : Lz4Params) (pieces : List Bytes),
    P.unlz4 ((P.lz4er params).encode pieces) = ⟨Bytes.join pieces, false⟩
  lz4Block : Member.BlockLaw P

namespace ImagePatch

variable {P : Primitives} {old patch rest contents target : Bytes} {offset : Nat}

/-- Where a generated block patch begins, it is found, and all that follows with it. -/
theorem blockPatchAt_generate
    (hat : patch.dropFirst offset = BlockPatch.generate P contents target ++ rest) :
    blockPatchAt patch offset = .ok (BlockPatch.generate P contents target ++ rest) ∧
      offset < patch.size ∧ (BlockPatch.generate P contents target).size ≤ patch.size := by
  have hlarge : BlockPatch.headerSize ≤ (BlockPatch.generate P contents target).size := by
    have := congrArg ByteArray.size
      (BlockPatch.generate_append P contents target ByteArray.empty)
    rw [ByteArray.append_empty, BlockPatch.size_layout] at this
    omega
  have hheader : BlockPatch.headerSize = 32 := rfl
  have hsize := congrArg ByteArray.size hat
  rw [Bytes.size_dropFirst, ByteArray.size_append] at hsize
  refine ⟨?_, by omega, by omega⟩
  rw [blockPatchAt, if_pos (by omega), hat]

/-- The contents of a member are patched and packed again in one go. -/
theorem applyMember_emits (laws : CodecLaws P) (hpatch : patch.size < 2 ^ 63)
    (hat : patch.dropFirst offset = BlockPatch.generate P contents target ++ rest)
    (hcontents : contents.size < 2 ^ 63) (htarget : target.size < 2 ^ 63) {A : Adapter}
    {Q : Bytes → Bytes → Prop}
    (hpacks : ∀ pieces, ∃ packed, A.Packs pieces packed ∧ Q (Bytes.join pieces) packed)
    (source : Window) :
    ∃ out, (∃ pieces, A.Packs pieces out) ∧ Q target out ∧
      (applyMember P patch ⟨source, offset, contents.size, target.size⟩ contents A).Emits
        out.size out := by
  obtain ⟨hfound, -, hlarge⟩ := blockPatchAt_generate hat
  have happly := BlockPatch.apply_emits laws.bzip2 hcontents htarget (by omega) rest
  obtain ⟨packed, hpacked, hQ⟩ := hpacks (BlockPatch.apply P
    (BlockPatch.generate P contents target ++ rest) contents).emission.pieces
  refine ⟨packed, ⟨_, hpacked⟩, ?_, ?_⟩
  · have hbytes := happly.bytes
    rw [Emission.bytes] at hbytes
    rwa [hbytes] at hQ
  · refine .ofExcept_bind hfound ?_
    have hrestored := hpacked.recompress (P := P) happly.outcome
    rw [happly.bytes] at hrestored
    refine hrestored.bind_pure ?_
    rw [if_neg (fun hne => hne rfl)]
    exact .pure _

end ImagePatch

namespace ImageCall

variable {P : Primitives} {old : Bytes}

/-- The container does not change when gzip framing is spelled in one way. -/
theorem container_packingParams (params : DeflateParams) :
    (packingParams params).container = params.container := by
  unfold packingParams ImagePatch.effectiveParams
  split
  · rename_i hgzip
    have hcontainer : params.container = .gzip := by simpa using hgzip
    rw [hcontainer]
    rfl
  · rfl

/-- Whatever is packed as a deflate member expands again. -/
theorem packs_deflate (laws : CodecLaws P) (params : DeflateParams) (pieces : List Bytes) :
    ∃ packed, (Adapter.deflate P (packingParams params)).Packs pieces packed ∧
      Member.inflate P params.container packed none = .ok (Bytes.join pieces) := by
  refine ⟨_, Adapter.packs_ofEncoder _ _ _, ?_⟩
  rw [Member.inflate, ← container_packingParams, laws.deflate]
  rfl

/-- Whatever is packed as an lz4 member, in either framing, expands again. -/
theorem packs_lz4 (laws : CodecLaws P) (params : Lz4Params) (pieces : List Bytes) :
    ∃ packed, (Adapter.lz4 P params).Packs pieces packed ∧
      Member.unlz4 P params packed none = .ok (Bytes.join pieces) := by
  unfold Adapter.lz4 Member.unlz4
  by_cases hlegacy : params.isLegacy = true
  · rw [if_pos hlegacy]
    simp only [if_pos hlegacy]
    refine ⟨_, Adapter.packs_lz4Legacy P pieces, ?_⟩
    rw [Member.unlz4_legacyMember laws.lz4Block (Adapter.small_blocksOf _), Adapter.join_blocksOf]
  · rw [if_neg hlegacy]
    simp only [if_neg hlegacy]
    refine ⟨_, Adapter.packs_ofEncoder _ _ _, ?_⟩
    rw [laws.lz4Frame]
    rfl

/-- **What one chunk makes**: read from where its block patch was placed, the chunk of a call makes
what the call stands for. -/
theorem Adds.apply (laws : CodecLaws P) (hold : old.size < 2 ^ 63) {call : ImageCall}
    {chunk : PendingChunk} (h : call.Adds P old chunk) (hfits : call.Fits P old) {offset : Nat}
    {placed : Chunk} (hplace : chunk.place offset = some placed) {patch rest : Bytes}
    (hpatch : patch.size < 2 ^ 63) (hat : patch.dropFirst offset = chunk.blockPatch ++ rest) :
    placed.Fits ∧
      ∃ out, call.Makes P out ∧ (ImagePatch.applyChunk P patch old placed).Emits out.size out := by
  cases h with
  | @normal source target window hwindow =>
    obtain ⟨hrange, htarget⟩ := hfits
    obtain ⟨hin, hsize⟩ := ImagePatch.sourceWindow_eq_ok hwindow
    obtain ⟨hfound, hoffset, hlarge⟩ := ImagePatch.blockPatchAt_generate hat
    rw [PendingChunk.place, SourceRange.length?_eq hrange] at hplace
    obtain rfl : .normal source.window offset = placed := Option.some.inj hplace
    refine ⟨⟨ImagePatch.window_fits hold hwindow, by omega⟩, target, rfl, ?_⟩
    exact .ofExcept_bind hwindow (.ofExcept_bind hfound
      (BlockPatch.apply_emits laws.bzip2 (by omega) htarget (by omega) rest))
  | @raw data =>
    obtain rfl : .raw data = placed := Option.some.inj hplace
    exact ⟨hfits, data, rfl, (Emits.emit data).bind_pure (.pure _)⟩
  | @deflate source params target window contents hwindow hcontents =>
    obtain ⟨hrange, htarget, hparams, hsmall⟩ := hfits
    obtain ⟨-, hoffset, -⟩ := ImagePatch.blockPatchAt_generate hat
    have hexpanded := hsmall window contents hwindow hcontents
    rw [PendingChunk.place, SourceRange.length?_eq hrange] at hplace
    obtain rfl : .deflate (params.container == .gzip)
      ⟨source.window, offset, contents.size, target.size⟩ params = placed := Option.some.inj hplace
    obtain ⟨out, hpacked, hmember, hemits⟩ := ImagePatch.applyMember_emits laws hpatch hat
      hexpanded htarget (Q := fun data out => Member.inflate P params.container out none = .ok data)
      (packs_deflate laws params) source.window
    have hheader : MemberHeader.Fits ⟨source.window, offset, contents.size, target.size⟩ := by
      constructor
      · exact ImagePatch.window_fits hold hwindow
      all_goals dsimp only; omega
    refine ⟨⟨hheader, hparams⟩, out, ⟨hpacked, hmember⟩, ?_⟩
    have hexact : Member.inflateExact P params.container window contents.size = .ok contents :=
      Member.Container.expandExact_of_expand (.deflate params.container) hcontents
    rw [← container_packingParams] at hexact
    exact .ofExcept_bind hwindow (.ofExcept_bind hexact hemits)
  | @lz4 source params target window contents hwindow hcontents =>
    obtain ⟨hrange, htarget, hparams, hsmall⟩ := hfits
    obtain ⟨-, hoffset, -⟩ := ImagePatch.blockPatchAt_generate hat
    have hexpanded := hsmall window contents hwindow hcontents
    rw [PendingChunk.place, SourceRange.length?_eq hrange] at hplace
    obtain rfl : .lz4 ⟨source.window, offset, contents.size, target.size⟩ params = placed :=
      Option.some.inj hplace
    obtain ⟨out, hpacked, hmember, hemits⟩ := ImagePatch.applyMember_emits laws hpatch hat
      hexpanded htarget (Q := fun data out => Member.unlz4 P params out none = .ok data)
      (packs_lz4 laws params) source.window
    have hheader : MemberHeader.Fits ⟨source.window, offset, contents.size, target.size⟩ := by
      constructor
      · exact ImagePatch.window_fits hold hwindow
      all_goals dsimp only; omega
    refine ⟨⟨hheader, hparams⟩, out, ⟨hpacked, hmember⟩, ?_⟩
    have hexact : Member.unlz4Exact P params window contents.size = .ok contents :=
      Member.Container.expandExact_of_expand (.lz4 params) hcontents
    exact .ofExcept_bind hwindow (.ofExcept_bind hexact hemits)

end ImageCall

/-! ## All chunks -/

namespace ImageBuilder

variable {P : Primitives} {old : Bytes} {calls : List ImageCall} {chunks : List PendingChunk}

theorem placeAll_of_adds (h : List.Forall₂ (ImageCall.Adds P old) calls chunks)
    (hfits : ∀ call ∈ calls, call.Fits P old) (offset : Nat) :
    ∃ placed, placeAll offset chunks = some placed := by
  induction h generalizing offset with
  | nil => exact ⟨[], rfl⟩
  | @cons call chunk calls chunks hadds hrest ih =>
    obtain ⟨first, hfirst⟩ := hadds.place (hfits call List.mem_cons_self) offset
    obtain ⟨others, hothers⟩ :=
      ih (fun c hc => hfits c (List.mem_cons_of_mem call hc)) (offset + chunk.blockPatch.size)
    exact ⟨_, placeAll_cons_eq_some.mpr ⟨first, others, hfirst, hothers, rfl⟩⟩

/-- **What all chunks make**: read one after the other, each with its block patch where the one
before it ends, they make what the calls stand for, in their order. -/
theorem applyChunks_emits (laws : CodecLaws P) (hold : old.size < 2 ^ 63)
    (h : List.Forall₂ (ImageCall.Adds P old) calls chunks)
    (hfits : ∀ call ∈ calls, call.Fits P old) {offset : Nat} {placed : List Chunk}
    (hplaced : placeAll offset chunks = some placed) {patch : Bytes} (hpatch : patch.size < 2 ^ 63)
    (hat : patch.dropFirst offset = Bytes.join (chunks.map PendingChunk.blockPatch)) {c : Cursor}
    {rest : Bytes} (hc : c.Ahead (Bytes.join (placed.map Chunk.encode) ++ rest)) (written : Nat) :
    ∃ outs, List.Forall₂ (ImageCall.Makes P) calls outs ∧
      (ImagePatch.applyChunks P patch old chunks.length c written).Emits
        (written + (Bytes.join outs).size) (Bytes.join outs) := by
  induction h generalizing offset placed c written with
  | nil => exact ⟨[], .nil, .pure _⟩
  | @cons call chunk calls chunks hadds hrest ih =>
    rw [List.map_cons, Bytes.join_cons] at hat
    obtain ⟨first, others, hplace, hmore, rfl⟩ := placeAll_cons_eq_some.mp hplaced
    obtain ⟨hfirst, out, hmakes, hout⟩ :=
      hadds.apply laws hold (hfits call List.mem_cons_self) hplace hpatch hat
    rw [List.map_cons, Bytes.join_cons, ByteArray.append_assoc] at hc
    obtain ⟨c₁, hread, hc₁⟩ := Chunk.reads_encode hfirst c _ hc
    -- the next block patch begins where this one ends
    have hat' : patch.dropFirst (offset + chunk.blockPatch.size) =
        Bytes.join (chunks.map PendingChunk.blockPatch) := by
      rw [← Bytes.dropFirst_dropFirst, hat, Bytes.dropFirst_append]
    obtain ⟨outs, hall, houts⟩ := ih (fun c hc => hfits c (List.mem_cons_of_mem call hc)) hmore
      hat' hc₁ (written + out.size)
    refine ⟨out :: outs, .cons hmakes hall, ?_⟩
    rw [Bytes.join_cons, ByteArray.size_append, ← Nat.add_assoc]
    exact .ofExcept_bind hread (hout.bind houts)

/-- The magic and the number of chunks read back. -/
theorem readCount_append {n : Nat} (hn : n < 2 ^ 32) (rest : Bytes) :
    ∃ c, ImagePatch.readCount (ImagePatch.magic ++ (LittleEndian.encode 4 n ++ rest)) = .ok (n, c) ∧
      c.Ahead rest := by
  obtain ⟨c₁, hmagic, hc₁⟩ := Cursor.reads_bytes ImagePatch.magic _ _
    (Cursor.ahead_start (ImagePatch.magic ++ (LittleEndian.encode 4 n ++ rest)))
  obtain ⟨c₂, hcount, hc₂⟩ := Cursor.reads_unsigned hn c₁ _ hc₁
  rw [size_magic] at hmagic
  refine ⟨c₂, except_bind_eq_ok.mpr ⟨_, hmagic, ?_⟩, hc₂⟩
  dsimp only
  rw [if_neg (fun hne => hne rfl)]
  exact hcount

/-- **Image patches round trip**: after successful calls there is a patch, and applied to the old
image it ends well, says how many bytes it made, and made what the calls stand for, one after the
other. -/
theorem apply_build (laws : CodecLaws P) (hold : old.size < 2 ^ 63) {b : ImageBuilder}
    (hcalls : ImageCall.runAll P old calls {} = .ok b)
    (hfits : ∀ call ∈ calls, call.Fits P old) (hcount : calls.length < 2 ^ 32)
    (hsize : ∀ patch, b.build = some patch → patch.size < 2 ^ 63) :
    ∃ patch outs, b.build = some patch ∧ List.Forall₂ (ImageCall.Makes P) calls outs ∧
      (ImagePatch.apply P patch old).emission.outcome = .ok (Bytes.join outs).size ∧
      (ImagePatch.apply P patch old).emission.bytes = Bytes.join outs := by
  obtain ⟨chunks, hadds, hchunks⟩ := ImageCall.runAll_eq_ok hcalls
  rw [List.nil_append] at hchunks
  obtain ⟨placed, hplaced⟩ := placeAll_of_adds hadds hfits (headersSize chunks)
  obtain ⟨front, hfront⟩ : ∃ front, front = ImagePatch.magic ++
    LittleEndian.encode 4 chunks.length ++ Bytes.join (placed.map Chunk.encode) := ⟨_, rfl⟩
  have hbuild : b.build = some (front ++ Bytes.join (chunks.map PendingChunk.blockPatch)) := by
    rw [build, hchunks, hplaced, hfront]
    rfl
  -- the block patches begin where the headers end
  have hplan : front.size = headersSize chunks := by
    rw [hfront, ByteArray.size_append, ByteArray.size_append, size_magic,
      LittleEndian.size_encode, size_encode_of_placeAll hplaced, headersSize]
  have hat : (front ++ Bytes.join (chunks.map PendingChunk.blockPatch)).dropFirst
      (headersSize chunks) = Bytes.join (chunks.map PendingChunk.blockPatch) :=
    Bytes.dropFirst_of_append rfl hplan
  have hlength : chunks.length < 2 ^ 32 := hadds.length_eq ▸ hcount
  obtain ⟨c, hread, hc⟩ := readCount_append hlength
    (Bytes.join (placed.map Chunk.encode) ++ Bytes.join (chunks.map PendingChunk.blockPatch))
  have hsplit : front ++ Bytes.join (chunks.map PendingChunk.blockPatch) =
      ImagePatch.magic ++ (LittleEndian.encode 4 chunks.length ++
        (Bytes.join (placed.map Chunk.encode) ++
          Bytes.join (chunks.map PendingChunk.blockPatch))) := by
    rw [hfront, ByteArray.append_assoc, ByteArray.append_assoc]
  obtain ⟨outs, hmakes, houts⟩ :=
    applyChunks_emits laws hold hadds hfits hplaced (hsize _ hbuild) hat hc 0
  rw [Nat.zero_add] at houts
  have happly : (ImagePatch.apply P (front ++ Bytes.join (chunks.map PendingChunk.blockPatch))
      old).Emits (Bytes.join outs).size (Bytes.join outs) := by
    rw [← hsplit] at hread
    exact .ofExcept_bind hread houts
  exact ⟨_, outs, hbuild, hmakes, happly.outcome, happly.bytes⟩

end ImageBuilder

/-! ## An example -/

namespace ImageBuilder

/-- Two bytes and three, and what they are compressed to as gzip members, lz4 frames and lz4
blocks. -/
def gzipSamples : List Sample :=
  [⟨[97, 98], [31, 139, 8, 0, 0, 0, 0, 0, 0, 255, 75, 76, 2, 0, 109, 72, 131, 158, 2, 0, 0, 0]⟩,
    ⟨[97, 98, 99],
      [31, 139, 8, 0, 0, 0, 0, 0, 0, 255, 75, 76, 74, 6, 0, 194, 65, 36, 53, 3, 0, 0, 0]⟩]

@[inherit_doc gzipSamples]
def frameSamples : List Sample :=
  [⟨[97, 98], [4, 34, 77, 24, 96, 64, 130, 2, 0, 0, 128, 97, 98, 0, 0, 0, 0]⟩,
    ⟨[97, 98, 99], [4, 34, 77, 24, 96, 64, 130, 3, 0, 0, 128, 97, 98, 99, 0, 0, 0, 0]⟩]

@[inherit_doc gzipSamples]
def blockSamples : List Sample := [⟨[97, 98], [32, 97, 98]⟩, ⟨[97, 98, 99], [48, 97, 98, 99]⟩]

/-- Primitives whose codecs compress as the samples say. -/
def samplePrimitives : Primitives :=
  { BlockPatch.withSamples BlockPatch.appendSamples with
    inflate := fun _ => Sample.decode gzipSamples
    deflater := fun _ => .ofWhole (Sample.encode gzipSamples)
    unlz4 := Sample.decode frameSamples
    lz4er := fun _ => .ofWhole (Sample.encode frameSamples)
    unlz4Block := fun _ packed => some (Sample.decode blockSamples packed).bytes
    lz4Block := Sample.encode blockSamples }

theorem samplePrimitives_laws : CodecLaws samplePrimitives where
  bzip2 data rest := congrArg Decoded.bytes
    (Sample.decode_encode (by decide : Sample.Apart BlockPatch.appendSamples) data rest)
  deflate params pieces := by
    have h := Sample.decode_encode (by decide : Sample.Apart gzipSamples) (Bytes.join pieces)
      ByteArray.empty
    rw [ByteArray.append_empty] at h
    exact (congrArg _ (Encoder.encode_ofWhole _ pieces)).trans h
  lz4Frame params pieces := by
    have h := Sample.decode_encode (by decide : Sample.Apart frameSamples) (Bytes.join pieces)
      ByteArray.empty
    rw [ByteArray.append_empty] at h
    exact (congrArg _ (Encoder.encode_ofWhole _ pieces)).trans h
  lz4Block := Member.blockLaw_of_samples (by decide : Sample.Apart blockSamples) (by decide) rfl rfl

/-- An image of the two bytes, plain and in three members. -/
def sampleImage : Bytes :=
  Bytes.ofText "ab" ++ Sample.encode gzipSamples (Bytes.ofText "ab") ++
    Sample.encode frameSamples (Bytes.ofText "ab") ++
    Adapter.legacyMember samplePrimitives [Bytes.ofText "ab"]

/-- Calls for three bytes in the place of each two, with a literal between them. -/
def sampleCalls : List ImageCall :=
  [.normal ⟨0, 2⟩ (Bytes.ofText "abc"), .raw (Bytes.ofText "-"),
    .deflate ⟨2, 24⟩ (.gzip 6) (Bytes.ofText "abc"), .lz4 ⟨24, 41⟩ .frame (Bytes.ofText "abc"),
    .lz4 ⟨41, 52⟩ .legacy (Bytes.ofText "abc")]

/-- The block patch of every one of these calls. -/
def samplePatch : Bytes :=
  BlockPatch.generate samplePrimitives (Bytes.ofText "ab") (Bytes.ofText "abc")

theorem size_samplePatch : samplePatch.size = 152 := by
  have h : samplePatch = BlockPatch.layout 3 _ _ _ := BlockPatch.generate_sample
  rw [h, BlockPatch.size_layout]
  rfl

theorem runAll_sample :
    ImageCall.runAll samplePrimitives sampleImage sampleCalls {} =
      .ok ⟨[.normal ⟨0, 2⟩ samplePatch, .raw (Bytes.ofText "-"),
        .deflate ⟨2, 24⟩ 2 3 (.gzip 6) samplePatch, .lz4 ⟨24, 41⟩ 2 3 .frame samplePatch,
        .lz4 ⟨41, 52⟩ 2 3 .legacy samplePatch]⟩ := rfl

theorem fits_sample : ∀ call ∈ sampleCalls, call.Fits samplePrimitives sampleImage := by
  have hgzip : (DeflateParams.gzip 6).Fits := by
    simp [DeflateParams.Fits, Chunk.deflateFields, Word32.Fits, DeflateParams.gzip,
      DeflateParams.raw, DeflateParams.gzipWindowBits]
  have hframe : Lz4Params.frame.Fits := by
    simp [Lz4Params.Fits, Chunk.lz4Fields, Word32.Fits, Lz4Params.frame]
  have hlegacy : Lz4Params.legacy.Fits := by
    simp [Lz4Params.Fits, Chunk.lz4Fields, Word32.Fits, Lz4Params.frame, Lz4Params.legacy,
      Lz4Params.legacyMagic]
  intro call hcall
  simp only [sampleCalls, List.mem_cons, List.not_mem_nil, or_false] at hcall
  rcases hcall with rfl | rfl | rfl | rfl | rfl
  · exact ⟨by decide, by decide⟩
  · show (Bytes.ofText "-").size < _
    decide
  · refine ⟨by decide, by decide, hgzip, fun window contents hwindow hcontents => ?_⟩
    obtain rfl : Sample.encode gzipSamples (Bytes.ofText "ab") = window := Except.ok.inj hwindow
    obtain rfl : Bytes.ofText "ab" = contents := Except.ok.inj hcontents
    decide
  · refine ⟨by decide, by decide, hframe, fun window contents hwindow hcontents => ?_⟩
    obtain rfl : Sample.encode frameSamples (Bytes.ofText "ab") = window := Except.ok.inj hwindow
    obtain rfl : Bytes.ofText "ab" = contents := Except.ok.inj hcontents
    decide
  · refine ⟨by decide, by decide, hlegacy, fun window contents hwindow hcontents => ?_⟩
    obtain rfl : Adapter.legacyMember samplePrimitives [Bytes.ofText "ab"] = window :=
      Except.ok.inj hwindow
    obtain rfl : Bytes.ofText "ab" = contents := Except.ok.inj hcontents
    decide

theorem apply_build_sample :
    ∃ b patch outs, ImageCall.runAll samplePrimitives sampleImage sampleCalls {} = .ok b ∧
      b.build = some patch ∧ List.Forall₂ (ImageCall.Makes samplePrimitives) sampleCalls outs ∧
      (ImagePatch.apply samplePrimitives patch sampleImage).emission.outcome =
        .ok (Bytes.join outs).size ∧
      (ImagePatch.apply samplePrimitives patch sampleImage).emission.bytes = Bytes.join outs := by
  obtain ⟨patch, outs, h⟩ := apply_build samplePrimitives_laws (by decide) runAll_sample fits_sample
    (by decide) fun patch hpatch => by
      rw [size_of_build hpatch]
      simp only [List.map_cons, List.map_nil, Bytes.join_cons, Bytes.join_nil,
        PendingChunk.blockPatch, ByteArray.size_append, size_samplePatch]
      decide
  exact ⟨_, patch, outs, runAll_sample, h⟩

end ImageBuilder

end BlockUpdate
