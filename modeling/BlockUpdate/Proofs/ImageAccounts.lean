import BlockUpdate.Proofs.ImagePatchRoundTrip
import BlockUpdate.Proofs.PatchErrors
import BlockUpdate.Proofs.PatchSemantics

/-!
# Accounts of an image patch

An image patch counts what it makes in three ways: the size that a block patch declares, the length
of a literal, and what a compressor gave out. The contents of a member never reach the receiver;
they go through the compressor, which hands over at times of its own. This file follows every piece
from where it is made to the receiver, and every refusal back.

- `Adapter.restoring`: an adapter as the receiver of what is restored through it.
  `ImagePatch.applyTo`: an image patch that calls the receiver wherever something is put out, also
  from inside a compressor. **`ImagePatch.applyTo_eq_into`**: it does what a delivery of its output
  does.
- `Chunk.Makes`: the output of a chunk, in terms of the old image and the patch alone.
- **`ImagePatch.chunk_makes`**, **`ImagePatch.chunks_make`**: what is handed over and counted.
- **`ImagePatch.applyTo_accounts`**: if an application ends in a number, that many bytes were
  handed over, and they are the outputs of the chunks; if a piece is refused, the refusal is the
  error of the application, whoever was putting out.
-/

namespace BlockUpdate

variable {σ α : Type} {put : Receiver σ} {P : Primitives}

/-! ## Restoring a member in front of a receiver -/

namespace Adapter

variable {A : Adapter}

/-- Where a member is restored: the state of the adapter, what it was handed so far, and the
receiver behind it. -/
structure Restoring (A : Adapter) (σ : Type) where
  adapter : A.State
  contents : Bytes
  receiver : σ

/-- An adapter as a receiver: it writes what it is handed, and what that hands over it passes on. A
refusal from behind it is its own. -/
def restoring (A : Adapter) (put : Receiver σ) : Receiver (Restoring A σ) := fun r piece =>
  match outcome (Emit.into put (A.write r.adapter piece)) r.receiver with
  | (.ok a, s) => (.ok (), ⟨a, r.contents ++ piece, s⟩)
  | (.error e, s) => (.error e, ⟨r.adapter, r.contents ++ piece, s⟩)

/-- Restores an output through an adapter, which is flushed at its end. -/
def restoreTo (P : Primitives) (A : Adapter) (put : Receiver σ) (x : Emit α) :
    ExceptT PatchError (StateM σ) Restored :=
  ExceptT.mk fun s =>
    match outcome (Emit.into (A.restoring put) x) ⟨A.opened A.initial, ByteArray.empty, s⟩ with
    | (.error e, r) => (.error e, r.receiver)
    | (.ok _, r) =>
      outcome (do
        let (compressed, _) ← Emit.into put (A.flush r.adapter)
        return ⟨r.contents.size, compressed, P.sha256 r.contents⟩) r.receiver

variable (put) in
/-- Handing pieces to the adapter as they come is writing all of them. -/
theorem deliverPieces_restoring (hA : A.Plain) (pieces : List Bytes) (a : A.State)
    (contents : Bytes) (s : σ) :
    match outcome (Emit.into put (A.writeAll pieces a)) s with
    | (.ok a', t) => Emission.deliverPieces (A.restoring put) pieces ⟨a, contents, s⟩ =
        (.ok (), ⟨a', contents ++ Bytes.join pieces, t⟩)
    | (.error e, t) => ∃ r, Emission.deliverPieces (A.restoring put) pieces ⟨a, contents, s⟩ =
        (.error e, r) ∧ r.receiver = t := by
  induction pieces generalizing a contents s with
  | nil =>
    rw [writeAll, Emit.into_pure, outcome_pure]
    dsimp only
    rw [Emission.deliverPieces, Bytes.join_nil, ByteArray.append_empty]
  | cons piece rest ih =>
    rw [writeAll, Emit.into_bind fun a => (hA.writeAll rest a).steady, outcome_bind,
      Emission.deliverPieces, restoring]
    rcases outcome (Emit.into put (A.write a piece)) s with ⟨e | a', t⟩
    · exact ⟨_, rfl, rfl⟩
    · have hrest := ih a' (contents ++ piece) t
      dsimp only
      rcases hwrite : outcome (Emit.into put (A.writeAll rest a')) t with ⟨e | a'', t'⟩
      · rw [hwrite] at hrest
        exact hrest
      · rw [hwrite] at hrest
        dsimp only at hrest ⊢
        rw [hrest, Bytes.join_cons, ByteArray.append_assoc]

/-- **Passing an emission through an adapter**, on the way to a receiver, is restoring it in front
of the receiver. -/
theorem into_recompress (hA : A.Plain) (P : Primitives) (x : Emit α) :
    Emit.into put (A.recompress P x.emission) = restoreTo P A put x := by
  funext s
  have hpieces := deliverPieces_restoring put hA x.emission.pieces (A.opened A.initial)
    ByteArray.empty s
  change outcome (Emit.into put (A.recompress P x.emission)) s = outcome (restoreTo P A put x) s
  rw [recompress, Emit.into_bind, outcome_bind, restoreTo, outcome_mk]
  swap
  · intro a
    split
    · exact .throw _
    · exact (hA.flush a).steady.bind fun _ => .pure _
  rcases hwrite : outcome (Emit.into put (A.writeAll x.emission.pieces (A.opened A.initial))) s
    with ⟨e | a, t⟩ <;> rw [hwrite] at hpieces
  · obtain ⟨r, hdeliver, hreceiver⟩ := hpieces
    have hx : outcome (Emit.into (A.restoring put) x) ⟨A.opened A.initial, ByteArray.empty, s⟩ =
        (.error e, r) := by
      rw [Emit.outcome_into, Emission.deliver, hdeliver]
    rw [hx]
    dsimp only
    rw [hreceiver]
  · have hx : outcome (Emit.into (A.restoring put) x) ⟨A.opened A.initial, ByteArray.empty, s⟩ =
        (x.emission.outcome, ⟨a, x.emission.bytes, t⟩) := by
      rw [Emit.outcome_into, Emission.deliver, hpieces, ByteArray.empty_append]
      rfl
    rw [hx]
    cases x.emission.outcome with
    | error e =>
      dsimp only
      rw [Emit.into_throw]
      rfl
    | ok b =>
      dsimp only
      rw [Emit.into_bind fun _ => .pure _]
      rfl

end Adapter

/-! ## Applying an image patch to a receiver -/

namespace ImagePatch

/-- Patches the contents of a member and restores the result in front of a receiver. -/
def applyMemberTo (P : Primitives) (put : Receiver σ) (patch : Bytes) (h : MemberHeader)
    (contents : Bytes) (A : Adapter) : ExceptT PatchError (StateM σ) Nat := do
  let blockPatch ← MonadExcept.ofExcept (blockPatchAt patch h.patchOffset)
  let restored ← A.restoreTo P put (BlockPatch.apply P blockPatch contents)
  if restored.uncompressed ≠ h.targetSize then
    throw (.sizeMismatch h.targetSize restored.uncompressed)
  return restored.compressed

/-- One chunk, put out to a receiver; gives the size of its output. -/
def applyChunkTo (P : Primitives) (put : Receiver σ) (patch old : Bytes) :
    Chunk → ExceptT PatchError (StateM σ) Nat
  | .normal source patchOffset => do
    let window ← MonadExcept.ofExcept (sourceWindow old source)
    let blockPatch ← MonadExcept.ofExcept (blockPatchAt patch patchOffset)
    Emit.into put (BlockPatch.apply P blockPatch window)
  | .raw data => do
    Emit.hand put data
    return data.size
  | .deflate gzip header params => do
    let params := effectiveParams gzip params
    let window ← MonadExcept.ofExcept (sourceWindow old header.source)
    let contents ← MonadExcept.ofExcept
      (Member.inflateExact P params.container window header.expandedSize)
    applyMemberTo P put patch header contents (Adapter.deflate P params)
  | .lz4 header params => do
    let window ← MonadExcept.ofExcept (sourceWindow old header.source)
    let contents ← MonadExcept.ofExcept (Member.unlz4Exact P params window header.expandedSize)
    applyMemberTo P put patch header contents (Adapter.lz4 P params)

/-- The chunks whose headers follow the cursor, put out to a receiver. -/
def applyChunksTo (P : Primitives) (put : Receiver σ) (patch old : Bytes) :
    Nat → Cursor → Nat → ExceptT PatchError (StateM σ) Nat
  | 0, _, written => return written
  | n + 1, c, written => do
    let (chunk, c) ← MonadExcept.ofExcept (Chunk.read c)
    let produced ← applyChunkTo P put patch old chunk
    applyChunksTo P put patch old n c (written + produced)

/-- Applies an image patch, putting its output out to a receiver as it comes. -/
def applyTo (P : Primitives) (put : Receiver σ) (patch old : Bytes) :
    ExceptT PatchError (StateM σ) Nat := do
  let (count, c) ← MonadExcept.ofExcept (readCount patch)
  applyChunksTo P put patch old count c 0

theorem applyMemberTo_eq_into {A : Adapter} (hA : A.Plain) (patch : Bytes) (h : MemberHeader)
    (contents : Bytes) :
    applyMemberTo P put patch h contents A = Emit.into put (applyMember P patch h contents A) := by
  rw [applyMember, Emit.into_ofExcept_bind, applyMemberTo]
  refine bind_congr fun blockPatch => ?_
  rw [Emit.into_bind, Adapter.into_recompress hA]
  · refine bind_congr fun restored => ?_
    dsimp only
    split
    · exact (Emit.into_throw _).symm
    · exact (Emit.into_pure _).symm
  · intro restored
    dsimp only
    split
    · exact .throw _
    · exact .pure _

theorem applyChunkTo_eq_into (patch old : Bytes) (chunk : Chunk) :
    applyChunkTo P put patch old chunk = Emit.into put (applyChunk P patch old chunk) := by
  cases chunk with
  | normal source patchOffset =>
    rw [applyChunk, Emit.into_ofExcept_bind, applyChunkTo]
    refine bind_congr fun window => ?_
    rw [Emit.into_ofExcept_bind]
  | raw data =>
    rw [applyChunk, Emit.into_bind fun _ => .pure _, Emit.into_emit, applyChunkTo]
    exact bind_congr fun _ => (Emit.into_pure _).symm
  | deflate gzip header params =>
    rw [applyChunk, Emit.into_ofExcept_bind, applyChunkTo]
    refine bind_congr fun window => ?_
    rw [Emit.into_ofExcept_bind]
    exact bind_congr fun contents => applyMemberTo_eq_into (Adapter.plain_ofEncoder _ _) _ _ _
  | lz4 header params =>
    rw [applyChunk, Emit.into_ofExcept_bind, applyChunkTo]
    refine bind_congr fun window => ?_
    rw [Emit.into_ofExcept_bind]
    exact bind_congr fun contents => applyMemberTo_eq_into (Adapter.plain_lz4 _ _) _ _ _

theorem applyChunksTo_eq_into (patch old : Bytes) (n : Nat) (c : Cursor) (written : Nat) :
    applyChunksTo P put patch old n c written =
      Emit.into put (applyChunks P patch old n c written) := by
  induction n generalizing c written with
  | zero => exact (Emit.into_pure written).symm
  | succ n ih =>
    rw [applyChunks, Emit.into_ofExcept_bind, applyChunksTo]
    refine bind_congr fun next => ?_
    rw [Emit.into_bind fun produced => (plain_applyChunks _ _ _ _ _ _).steady,
      ← applyChunkTo_eq_into]
    exact bind_congr fun produced => ih _ _

/-- **An application that calls the receiver as it goes** does what a delivery of its output
does. -/
theorem applyTo_eq_into (P : Primitives) (put : Receiver σ) (patch old : Bytes) :
    applyTo P put patch old = Emit.into put (apply P patch old) := by
  rw [apply, Emit.into_ofExcept_bind, applyTo]
  exact bind_congr fun counted => applyChunksTo_eq_into _ _ _ _ _

end ImagePatch

/-! ## What the chunks make -/

/-- An application of a block patch that ends in a number has made the output of its whole runs. -/
theorem BlockPatch.apply_ok {patch old : Bytes} {n : Nat}
    (h : (apply P patch old).emission.outcome = .ok n) :
    ∃ header, Header.parse patch = .ok header ∧
      meaning P patch old header = some (apply P patch old).emission.bytes ∧
      (apply P patch old).emission.bytes.size = n := by
  have hheader := h
  rw [apply] at hheader
  obtain ⟨header, hparse, -, -⟩ := Emit.emission_ofExcept_bind_eq_ok hheader
  cases hmeaning : meaning P patch old header with
  | none =>
    obtain ⟨⟨e, herror⟩, -⟩ := (apply_fails hparse hmeaning).emission
    rw [herror] at h
    cases h
  | some data =>
    obtain ⟨hemits, hsize⟩ := apply_emits_meaning hparse hmeaning
    rw [hemits.outcome] at h
    cases h
    rw [hemits.bytes]
    exact ⟨header, hparse, hmeaning, hsize⟩

namespace Adapter

/-- What lz4 parameters make of pieces: a member in the legacy framing, or the stream of the
compressor. -/
def lz4Packed (P : Primitives) (params : Lz4Params) (pieces : List Bytes) : Bytes :=
  if params.isLegacy then legacyMember P (blocksOf (Bytes.join pieces))
  else (P.lz4er params).encode pieces

theorem packs_lz4 (P : Primitives) (params : Lz4Params) (pieces : List Bytes) :
    (lz4 P params).Packs pieces (lz4Packed P params pieces) := by
  rw [lz4, lz4Packed]
  split
  · exact packs_lz4Legacy P pieces
  · exact packs_ofEncoder _ _ _

/-- Only an output that ends in a value is compressed to its end. -/
theorem recompress_ok {A : Adapter} (hA : A.Plain) {e : Emission α} {r : Restored}
    (h : (recompress P A e).emission.outcome = .ok r) : ∃ a, e.outcome = .ok a := by
  rw [recompress] at h
  obtain ⟨s, -, h, -⟩ := Emit.emission_bind_eq_ok (fun s => by
    split
    · exact .throw _
    · exact (hA.flush s).steady.bind fun _ => .pure _) h
  cases hend : e.outcome with
  | error err =>
    rw [hend] at h
    dsimp only at h
    rw [Emit.emission_throw] at h
    cases h
  | ok a => exact ⟨a, rfl⟩

end Adapter

namespace ImagePatch

/-- The output of a member: its block patch has an output of the declared size, and the compressor
packs it in the pieces in which it is made. -/
inductive MemberMakes (P : Primitives) (patch : Bytes) (h : MemberHeader) (contents : Bytes)
    (pack : List Bytes → Bytes) : Bytes → Prop
  | intro {blockPatch : Bytes} {header : BlockPatch.Header} {pieces : List Bytes}
      (hat : blockPatchAt patch h.patchOffset = .ok blockPatch)
      (hparse : BlockPatch.Header.parse blockPatch = .ok header)
      (hmeaning : BlockPatch.meaning P blockPatch contents header = some (Bytes.join pieces))
      (hsize : (Bytes.join pieces).size = h.targetSize)
      (hpieces : pieces = (BlockPatch.apply P blockPatch contents).emission.pieces) :
      MemberMakes P patch h contents pack (pack pieces)

end ImagePatch

open ImagePatch in
/-- The output of a chunk. -/
inductive Chunk.Makes (P : Primitives) (patch old : Bytes) : Chunk → Bytes → Prop
  | normal {source : Window} {offset : Nat} {window blockPatch out : Bytes}
      {header : BlockPatch.Header} (hwindow : sourceWindow old source = .ok window)
      (hat : blockPatchAt patch offset = .ok blockPatch)
      (hparse : BlockPatch.Header.parse blockPatch = .ok header)
      (hmeaning : BlockPatch.meaning P blockPatch window header = some out) :
      Makes P patch old (.normal source offset) out
  | raw (data : Bytes) : Makes P patch old (.raw data) data
  | deflate {gzip : Bool} {h : MemberHeader} {params : DeflateParams} {window contents out : Bytes}
      (hwindow : sourceWindow old h.source = .ok window)
      (hcontents : Member.inflateExact P (effectiveParams gzip params).container window
        h.expandedSize = .ok contents)
      (hmember : MemberMakes P patch h contents
        (P.deflater (effectiveParams gzip params)).encode out) :
      Makes P patch old (.deflate gzip h params) out
  | lz4 {h : MemberHeader} {params : Lz4Params} {window contents out : Bytes}
      (hwindow : sourceWindow old h.source = .ok window)
      (hcontents : Member.unlz4Exact P params window h.expandedSize = .ok contents)
      (hmember : MemberMakes P patch h contents (Adapter.lz4Packed P params) out) :
      Makes P patch old (.lz4 h params) out

namespace ImagePatch

variable {patch old : Bytes} {n : Nat}

theorem member_makes {A : Adapter} (hA : A.Plain) {pack : List Bytes → Bytes}
    (hpack : ∀ pieces, A.Packs pieces (pack pieces)) {h : MemberHeader} {contents : Bytes}
    (hok : (applyMember P patch h contents A).emission.outcome = .ok n) :
    MemberMakes P patch h contents pack (applyMember P patch h contents A).emission.bytes ∧
      (applyMember P patch h contents A).emission.bytes.size = n := by
  rw [applyMember] at hok ⊢
  obtain ⟨blockPatch, hat, hok, heq⟩ := Emit.emission_ofExcept_bind_eq_ok hok
  rw [heq]
  obtain ⟨restored, hrestored, hend, hbytes⟩ := Emit.emission_bind_eq_ok (fun restored => by
    dsimp only
    split
    · exact .throw _
    · exact .pure _) hok
  -- the block patch ended well, so that the whole of it was packed
  obtain ⟨made, hmade⟩ := Adapter.recompress_ok hA hrestored
  obtain ⟨header, hparse, hmeaning, -⟩ := BlockPatch.apply_ok hmade
  have hpacked := (hpack _).recompress (P := P) hmade
  rw [hpacked.outcome] at hrestored
  cases hrestored
  dsimp only at hend hbytes
  split at hend
  · have hthrow : (Except.error _ : Except PatchError Nat) = .ok n := hend
    cases hthrow
  · rename_i hsize
    rw [if_neg hsize, Emit.emission_pure, hpacked.bytes] at hbytes
    rw [Emit.emission_pure] at hend
    cases hend
    have hall := hbytes.trans ByteArray.append_empty
    refine ⟨?_, congrArg ByteArray.size hall⟩
    rw [hall]
    exact .intro hat hparse hmeaning (not_not.mp hsize) rfl

/-- **A chunk that ends in a number** has handed over its output, whose size the number is. -/
theorem chunk_makes {chunk : Chunk}
    (hok : (applyChunk P patch old chunk).emission.outcome = .ok n) :
    chunk.Makes P patch old (applyChunk P patch old chunk).emission.bytes ∧
      (applyChunk P patch old chunk).emission.bytes.size = n := by
  cases chunk with
  | normal source offset =>
    rw [applyChunk] at hok ⊢
    obtain ⟨window, hwindow, hok, heq⟩ := Emit.emission_ofExcept_bind_eq_ok hok
    rw [heq]
    obtain ⟨blockPatch, hat, hok, heq⟩ := Emit.emission_ofExcept_bind_eq_ok hok
    rw [heq]
    obtain ⟨header, hparse, hmeaning, hsize⟩ := BlockPatch.apply_ok hok
    exact ⟨.normal hwindow hat hparse hmeaning, hsize⟩
  | raw data =>
    have hemits : (applyChunk P patch old (.raw data)).Emits data.size data :=
      (Emit.Emits.emit data).bind_pure (.pure _)
    rw [hemits.outcome] at hok
    cases hok
    rw [hemits.bytes]
    exact ⟨.raw data, rfl⟩
  | deflate gzip header params =>
    rw [applyChunk] at hok ⊢
    obtain ⟨window, hwindow, hok, heq⟩ := Emit.emission_ofExcept_bind_eq_ok hok
    rw [heq]
    obtain ⟨contents, hcontents, hok, heq⟩ := Emit.emission_ofExcept_bind_eq_ok hok
    rw [heq]
    obtain ⟨hmember, hsize⟩ := member_makes (Adapter.plain_ofEncoder _ _)
      (fun pieces => Adapter.packs_ofEncoder _ _ pieces) hok
    exact ⟨.deflate hwindow hcontents hmember, hsize⟩
  | lz4 header params =>
    rw [applyChunk] at hok ⊢
    obtain ⟨window, hwindow, hok, heq⟩ := Emit.emission_ofExcept_bind_eq_ok hok
    rw [heq]
    obtain ⟨contents, hcontents, hok, heq⟩ := Emit.emission_ofExcept_bind_eq_ok hok
    rw [heq]
    obtain ⟨hmember, hsize⟩ := member_makes (Adapter.plain_lz4 _ _)
      (Adapter.packs_lz4 P params) hok
    exact ⟨.lz4 hwindow hcontents hmember, hsize⟩

/-- **All chunks**: their outputs are handed over in order, and the number grows by their sizes. -/
theorem chunks_make {c : Cursor} {written total : Nat}
    (hok : (applyChunks P patch old n c written).emission.outcome = .ok total) :
    ∃ chunks c' outs, Chunk.readAll n c = .ok (chunks, c') ∧
      List.Forall₂ (Chunk.Makes P patch old) chunks outs ∧
      (applyChunks P patch old n c written).emission.bytes = Bytes.join outs ∧
      total = written + (Bytes.join outs).size := by
  induction n generalizing c written with
  | zero =>
    rw [applyChunks, Emit.emission_pure] at hok
    cases hok
    refine ⟨[], c, [], rfl, .nil, ?_, rfl⟩
    rw [applyChunks, Emit.emission_pure]
    rfl
  | succ n ih =>
    rw [applyChunks] at hok ⊢
    obtain ⟨⟨chunk, c₁⟩, hread, hok, heq⟩ := Emit.emission_ofExcept_bind_eq_ok hok
    rw [heq]
    obtain ⟨produced, hchunk, hrest, hbytes⟩ := Emit.emission_bind_eq_ok
      (fun _ => (plain_applyChunks _ _ _ _ _ _).steady) hok
    obtain ⟨hmakes, hsize⟩ := chunk_makes hchunk
    obtain ⟨chunks, c₂, outs, hreads, hall, hrestBytes, htotal⟩ := ih hrest
    refine ⟨chunk :: chunks, c₂, _ :: outs, ?_, .cons hmakes hall, ?_, ?_⟩
    · exact except_bind_eq_ok.mpr ⟨_, hread, except_bind_eq_ok.mpr ⟨_, hreads, rfl⟩⟩
    · rw [hbytes, hrestBytes, Bytes.join_cons]
    · rw [htotal, Bytes.join_cons, ByteArray.size_append, hsize, Nat.add_assoc]

/-- The chunk headers of an image patch. -/
def readChunks (patch : Bytes) : Except PatchError (List Chunk) := do
  let (count, c) ← readCount patch
  let (chunks, _) ← Chunk.readAll count c
  return chunks

/-- An application that ends in a number has handed over the outputs of all chunks. -/
theorem apply_makes (hok : (apply P patch old).emission.outcome = .ok n) :
    ∃ chunks outs, readChunks patch = .ok chunks ∧
      List.Forall₂ (Chunk.Makes P patch old) chunks outs ∧
      (apply P patch old).emission.bytes = Bytes.join outs ∧ (Bytes.join outs).size = n := by
  rw [apply] at hok ⊢
  obtain ⟨⟨count, c⟩, hcount, hok, heq⟩ := Emit.emission_ofExcept_bind_eq_ok hok
  rw [heq]
  obtain ⟨chunks, c', outs, hreads, hall, hbytes, htotal⟩ := chunks_make hok
  refine ⟨chunks, outs, ?_, hall, hbytes, by omega⟩
  exact except_bind_eq_ok.mpr ⟨_, hcount, except_bind_eq_ok.mpr ⟨_, hreads, rfl⟩⟩

/-- **The accounts of an application**, by the calls of the receiver. If it ends in a number, that
many bytes were taken, and they are the outputs of the chunks in their order. If a piece is refused,
the refusal is its error and no other piece follows, whatever kind of chunk was being restored. And
it fails as a device does only if the receiver did. -/
theorem applyTo_accounts (P : Primitives) (patch old : Bytes) (put : Receiver σ) (s : σ) :
    let run := outcome (applyTo P (Emission.noting put) patch old) (s, [])
    let data := Bytes.join (run.2.2.map Call.piece)
    (∀ n, run.1 = .ok n →
      (∀ call ∈ run.2.2, call.answer = .ok ()) ∧ data.size = n ∧
        ∃ chunks outs, readChunks patch = .ok chunks ∧
          List.Forall₂ (Chunk.Makes P patch old) chunks outs ∧ data = Bytes.join outs) ∧
    (∀ call ∈ run.2.2, ∀ e, call.answer = .error e →
      run.1 = .error e ∧ run.2.2.getLast? = some call) ∧
    (∀ os, run.1 = .error (.os os) → ∃ call ∈ run.2.2, call.answer = .error (.os os)) := by
  intro run data
  have hrun : run = (apply P patch old).emission.deliver (Emission.noting put) (s, []) := by
    have hinto : run = outcome (applyTo P (Emission.noting put) patch old) (s, []) := rfl
    rw [hinto, applyTo_eq_into, Emit.outcome_into]
  obtain ⟨hsuccess, hrefused, hfailure⟩ :=
    Emission.deliver_noting put (apply P patch old).emission s
  rw [← hrun] at hsuccess hrefused hfailure
  refine ⟨fun n hn => ?_, hrefused, fun os hos => ?_⟩
  · obtain ⟨hok, hcalls⟩ := hsuccess n hn
    obtain ⟨chunks, outs, hreads, hall, hbytes, hsize⟩ := apply_makes hok
    have hdata : data = Bytes.join outs := by
      have hpieces : (Emission.taken (apply P patch old).emission.pieces).map Call.piece =
          (apply P patch old).emission.pieces := by
        rw [Emission.taken, List.map_map]
        exact List.map_id _
      have hjoin : data = Bytes.join (run.2.2.map Call.piece) := rfl
      rw [hjoin, hcalls, hpieces]
      exact hbytes
    refine ⟨fun call hcall => ?_, hdata ▸ hsize, chunks, outs, hreads, hall, hdata⟩
    rw [hcalls] at hcall
    obtain ⟨piece, -, rfl⟩ := List.mem_map.mp hcall
    rfl
  · rcases hfailure _ hos with hown | hcall
    · exact absurd rfl ((ownErrors_apply P patch old).emission _ hown os)
    · exact hcall

/-! ## An example -/

open ImageBuilder (samplePrimitives gzipSamples)

/-- The block patch that appends a byte to two. -/
def appendPatch : Bytes :=
  BlockPatch.layout 3 (Bytes.ofList (BlockPatch.appendSamples[0].stream))
    (Bytes.ofList (BlockPatch.appendSamples[1].stream))
    (Bytes.ofList (BlockPatch.appendSamples[2].stream))

/-- A chunk for a gzip member of two bytes. -/
def memberChunk : Chunk := .deflate true ⟨⟨0, 22⟩, 76, 2, 3⟩ (.gzip 6)

/-- An image patch of that chunk alone. -/
def memberPatch : Bytes :=
  magic ++ (LittleEndian.encode 4 1 ++ (memberChunk.encode ++ appendPatch))

/-- The member before and after. -/
def oldMember : Bytes := Sample.encode gzipSamples (Bytes.ofText "ab")

@[inherit_doc oldMember]
def newMember : Bytes := Sample.encode gzipSamples (Bytes.ofText "abc")

theorem appendPatch_emits :
    (BlockPatch.apply samplePrimitives appendPatch (Bytes.ofText "ab")).Emits 3
      (Bytes.ofText "abc") := by
  have hparse : BlockPatch.Header.parse appendPatch = .ok ⟨_, _, 3⟩ :=
    BlockPatch.parse_layout (by decide) (by decide) (by decide)
  refine (BlockPatch.apply_emits_meaning hparse ?_).1
  rw [BlockPatch.meaning, appendPatch, BlockPatch.streams_layout]
  cbv

theorem memberPatch_emits : (apply samplePrimitives memberPatch oldMember).Emits 23 newMember := by
  have hfits : memberChunk.Fits := by
    refine ⟨⟨⟨by decide, by decide⟩, by decide, by decide, by decide⟩, ?_⟩
    simp [DeflateParams.Fits, Chunk.deflateFields, Word32.Fits, DeflateParams.gzip,
      DeflateParams.raw, DeflateParams.gzipWindowBits]
  obtain ⟨c, hcount, hc⟩ :=
    ImageBuilder.readCount_append (n := 1) (by decide) (memberChunk.encode ++ appendPatch)
  obtain ⟨c₁, hread, -⟩ := Chunk.reads_encode hfits c _ hc
  have hat : blockPatchAt memberPatch 76 = .ok appendPatch := by
    have hsize : (magic ++ (LittleEndian.encode 4 1 ++ memberChunk.encode)).size = 76 := by decide
    have hsplit : memberPatch =
        magic ++ (LittleEndian.encode 4 1 ++ memberChunk.encode) ++ appendPatch := by
      rw [memberPatch, ByteArray.append_assoc, ByteArray.append_assoc]
    have hmore : 76 < memberPatch.size := by
      rw [hsplit, ByteArray.size_append, hsize, appendPatch, BlockPatch.size_layout]
      decide
    rw [blockPatchAt, if_pos hmore, Bytes.dropFirst_of_append hsplit hsize]
  have hpacked : (Adapter.deflate samplePrimitives (effectiveParams true (.gzip 6))).Packs
      (BlockPatch.apply samplePrimitives appendPatch (Bytes.ofText "ab")).emission.pieces
      newMember := by
    have hstream : (samplePrimitives.deflater (effectiveParams true (.gzip 6))).encode
        (BlockPatch.apply samplePrimitives appendPatch (Bytes.ofText "ab")).emission.pieces =
          newMember :=
      (Encoder.encode_ofWhole _ _).trans
        (congrArg (Sample.encode gzipSamples) appendPatch_emits.bytes)
    rw [← hstream]
    exact Adapter.packs_ofEncoder _ _ _
  have hchunk : (applyChunk samplePrimitives memberPatch oldMember memberChunk).Emits 23
      newMember := by
    refine .ofExcept_bind (a := oldMember) rfl (.ofExcept_bind (a := Bytes.ofText "ab") rfl
      (.ofExcept_bind hat ((hpacked.recompress appendPatch_emits.outcome).bind_pure ?_)))
    rw [appendPatch_emits.bytes]
    exact .pure _
  exact .ofExcept_bind hcount (.ofExcept_bind hread (hchunk.bind_pure (.pure _)))

/-- A receiver that takes every piece, and one that has no space left for any. -/
def taking : Receiver Unit := fun _ _ => (.ok (), ())

@[inherit_doc taking]
def full : Receiver Unit := fun _ _ => (.error (.os (.errno .noSpace)), ())

/-- The new member is taken, or refused while it is being restored. -/
theorem applyTo_accounts_member :
    (∃ took, outcome (applyTo samplePrimitives (Emission.noting taking) memberPatch oldMember)
      ((), []) = (.ok 23, (), took) ∧ (Bytes.join (took.map Call.piece)).size = 23) ∧
    ∃ refused call, outcome (applyTo samplePrimitives (Emission.noting full) memberPatch oldMember)
      ((), []) = (.error (.os (.errno .noSpace)), (), refused) ∧ refused.getLast? = some call := by
  constructor
  · obtain ⟨hsuccess, -⟩ := applyTo_accounts samplePrimitives memberPatch oldMember taking ()
    have hput : ∀ s piece, Emission.noting taking s piece =
        (.ok (), (), s.2 ++ [⟨piece, .ok ()⟩]) := fun _ _ => rfl
    have htook : (outcome (applyTo samplePrimitives (Emission.noting taking) memberPatch oldMember)
        ((), [])).1 = .ok 23 := by
      rw [applyTo_eq_into, Emit.outcome_into, Emission.deliver_total hput,
        memberPatch_emits.outcome]
    obtain ⟨-, hsize, -⟩ := hsuccess 23 htook
    generalize outcome (applyTo _ _ _ _) _ = run at htook hsize
    obtain ⟨result, ⟨⟩, calls⟩ := run
    exact ⟨calls, by rw [← htook], hsize⟩
  · obtain ⟨-, hrefused, -⟩ := applyTo_accounts samplePrimitives memberPatch oldMember full ()
    obtain ⟨call, hcall, hanswer⟩ : ∃ call ∈ (outcome (applyTo samplePrimitives
        (Emission.noting full) memberPatch oldMember) ((), [])).2.2,
          call.answer = .error (.os (.errno .noSpace)) := by
      rw [applyTo_eq_into, Emit.outcome_into, Emission.deliver]
      cases hpieces : (apply samplePrimitives memberPatch oldMember).emission.pieces with
      | nil =>
        have hbytes := memberPatch_emits.bytes
        rw [Emission.bytes, hpieces] at hbytes
        exact absurd (congrArg ByteArray.size hbytes) (by decide)
      | cons piece rest => exact ⟨⟨piece, _⟩, List.mem_singleton_self _, rfl⟩
    obtain ⟨herror, hlast⟩ := hrefused call hcall _ hanswer
    generalize outcome (applyTo _ _ _ _) _ = run at herror hlast
    obtain ⟨result, ⟨⟩, calls⟩ := run
    exact ⟨calls, call, by rw [← herror], hlast⟩

end ImagePatch

end BlockUpdate
