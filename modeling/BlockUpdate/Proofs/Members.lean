import BlockUpdate.Patch.Adapter
import BlockUpdate.Proofs.Emitted
import BlockUpdate.Proofs.Fields
import BlockUpdate.Proofs.MemberLimits
import BlockUpdate.Proofs.SampleCodecs

/-!
# Members read back

A member of an image is expanded, patched, and compressed again on the way out. The compressed data
leaves in parts, whenever enough has accumulated; what leaves altogether does not depend on that.

- `Adapter.Packs`: what an adapter makes of the pieces that are written to it.
- **`Adapter.packs_ofEncoder`**: in front of a compressor, the stream that the compressor makes of
  the same pieces.
- `Adapter.legacyMember`: a member in the legacy framing, of blocks of any size up to the largest,
  one record each. **`Member.unlz4_legacyMember`**: it expands to its blocks.
-/

namespace BlockUpdate

/-! ## Adapters -/

namespace Adapter

open Emit (Emits)

variable {P : Primitives} {pieces : List Bytes}

/-- Written piece by piece to a fresh adapter, the data comes out packed in the given way. -/
def Packs (A : Adapter) (pieces : List Bytes) (packed : Bytes) : Prop :=
  ∃ handed s rest s', Emits (A.writeAll pieces (A.opened A.initial)) s handed ∧
    Emits (A.flush s) (packed.size, s') rest ∧ handed ++ rest = packed

/-- What an adapter packs comes out when an emission is passed through it. -/
theorem Packs.recompress {A : Adapter} {α : Type} {e : Emission α} {a : α} {packed : Bytes}
    (h : A.Packs e.pieces packed) (hok : e.outcome = .ok a) :
    Emits (recompress P A e) ⟨e.bytes.size, packed.size, P.sha256 e.bytes⟩ packed := by
  obtain ⟨handed, s, rest, s', hwrite, hflush, rfl⟩ := h
  rw [Adapter.recompress]
  refine hwrite.bind ?_
  rw [hok]
  exact hflush.bind_pure (.pure _)

theorem drain_emits (pending : Bytes) : Emits (drain pending) pending.size pending := by
  rw [drain]
  by_cases h : pending.size = 0
  · rw [if_neg (fun hne => hne h)]
    have hempty := ByteArray.size_eq_zero_iff.mp h
    rw [hempty]
    exact .pure _
  · rw [if_pos h]
    exact (Emits.emit pending).bind_pure (.pure _)

/-! ## In front of a compressor -/

theorem encoder_writeAll_append (E : Encoder) (pieces : List Bytes) (s : E.State) (front : Bytes) :
    E.writeAll pieces s front =
      ((E.writeAll pieces s ByteArray.empty).1,
        front ++ (E.writeAll pieces s ByteArray.empty).2) := by
  induction pieces generalizing s front with
  | nil => simp [Encoder.writeAll]
  | cons piece rest ih =>
    rw [Encoder.writeAll, Encoder.writeAll]
    dsimp only
    rw [ih _ (front ++ _), ih _ (ByteArray.empty ++ _), ByteArray.empty_append,
      ByteArray.append_assoc]

/-- One write: what was pending and what became ready is handed over or still pending. -/
theorem write_ofEncoder (name : String) (E : Encoder) (s : E.State) (pending : Bytes)
    (emitted : Nat) (piece : Bytes) :
    ∃ handed pending', Emits ((ofEncoder name E).write ⟨some (s, pending), emitted⟩ piece)
        ⟨some ((E.write s piece).1, pending'), emitted + handed.size⟩ handed ∧
      handed ++ pending' = pending ++ (E.write s piece).2 := by
  by_cases h : drainThreshold ≤ (pending ++ (E.write s piece).2).size
  · refine ⟨_, ByteArray.empty, ?_, ByteArray.append_empty⟩
    dsimp only [ofEncoder]
    rw [if_pos h]
    exact (drain_emits _).bind_pure (.pure _)
  · refine ⟨ByteArray.empty, _, ?_, ByteArray.empty_append⟩
    dsimp only [ofEncoder]
    rw [if_neg h]
    exact .pure _

/-- What was handed over and what is still pending is what the compressor made. -/
theorem writeAll_ofEncoder (name : String) (E : Encoder) (pieces : List Bytes) (s : E.State)
    (pending : Bytes) (emitted : Nat) :
    ∃ handed pending' s', Emits ((ofEncoder name E).writeAll pieces ⟨some (s, pending), emitted⟩)
        ⟨some (s', pending'), emitted + handed.size⟩ handed ∧
      E.writeAll pieces s pending = (s', handed ++ pending') := by
  induction pieces generalizing s pending emitted with
  | nil =>
    refine ⟨ByteArray.empty, pending, s, .pure _, ?_⟩
    rw [Encoder.writeAll, ByteArray.empty_append]
  | cons piece rest ih =>
    obtain ⟨handed₁, pending₁, hwrite, hready⟩ := write_ofEncoder name E s pending emitted piece
    obtain ⟨handed₂, pending₂, s₂, hrest, hall⟩ :=
      ih (E.write s piece).1 pending₁ (emitted + handed₁.size)
    refine ⟨handed₁ ++ handed₂, pending₂, s₂, ?_, ?_⟩
    · have := hwrite.bind hrest
      rw [Nat.add_assoc, ← ByteArray.size_append] at this
      exact this
    · rw [encoder_writeAll_append] at hall
      obtain ⟨hs, hout⟩ := Prod.mk.inj hall
      rw [Encoder.writeAll]
      dsimp only
      rw [← hready, encoder_writeAll_append, ByteArray.append_assoc, ByteArray.append_assoc,
        ← hout, hs]

/-- **In front of a compressor**, the stream of the same pieces comes out. -/
theorem packs_ofEncoder (name : String) (E : Encoder) (pieces : List Bytes) :
    (ofEncoder name E).Packs pieces (E.encode pieces) := by
  obtain ⟨handed, pending, s, hwrite, hall⟩ :=
    writeAll_ofEncoder name E pieces E.start ByteArray.empty 0
  have hpacked : handed ++ (pending ++ E.finish s) = E.encode pieces := by
    rw [Encoder.encode, hall, ← ByteArray.append_assoc]
  have hsize : 0 + handed.size + (pending ++ E.finish s).size = (E.encode pieces).size := by
    rw [← hpacked, ByteArray.size_append (a := handed), Nat.zero_add]
  have hflush : Emits ((ofEncoder name E).flush ⟨some (s, pending), 0 + handed.size⟩)
      (0 + handed.size + (pending ++ E.finish s).size,
        ⟨none, 0 + handed.size + (pending ++ E.finish s).size⟩) (pending ++ E.finish s) :=
    (drain_emits _).bind_pure (.pure _)
  rw [hsize] at hflush
  exact ⟨handed, _, _, _, hwrite, hflush, hpacked⟩

/-! ## The legacy framing -/

/-- A member in the legacy framing, with the given blocks. -/
def legacyMember (P : Primitives) (blocks : List Bytes) : Bytes :=
  LittleEndian.encode 4 Lz4Params.legacyMagic ++ Bytes.join (blocks.map (legacyRecord P))

/-- Blocks that one record each can hold. -/
def Small (blocks : List Bytes) : Prop := ∀ block ∈ blocks, block.size ≤ Member.legacyBlock

end Adapter

/-! ## Members -/

theorem Cursor.Ahead.atEnd_iff {c : Cursor} {rest : Bytes} (h : c.Ahead rest) :
    c.atEnd = true ↔ rest.size = 0 := by
  obtain ⟨front, hdata, hsize⟩ := h
  rw [Cursor.atEnd, decide_eq_true_iff, hdata, ByteArray.size_append]
  omega

namespace Member

open Adapter (legacyRecord legacyMember Small)

variable {P : Primitives}

/-- The law of a codec of single blocks: decoding inverts encoding, and the size of a block can be
written into its record. -/
def BlockLaw (P : Primitives) : Prop :=
  ∀ block : Bytes, block.size ≤ legacyBlock →
    P.unlz4Block legacyBlock (P.lz4Block block) = some block ∧ (P.lz4Block block).size < 2 ^ 32

/-- A codec that compresses by samples inverts itself. -/
theorem blockLaw_of_samples {samples : List Sample} (hapart : Sample.Apart samples)
    (hshort : ∀ s ∈ samples, s.stream.length < 2 ^ 32)
    (hencode : P.lz4Block = Sample.encode samples)
    (hdecode : P.unlz4Block = fun _ packed => some (Sample.decode samples packed).bytes) :
    BlockLaw P := by
  intro block hblock
  have h := Sample.decode_encode hapart block ByteArray.empty
  rw [ByteArray.append_empty] at h
  rw [hencode, hdecode]
  refine ⟨congrArg (fun d : Decoded => some d.bytes) h, ?_⟩
  have hlarge : legacyBlock = 8388608 := rfl
  exact Sample.size_encode_lt hshort (by omega)

theorem legacyRecords_blocks (hlaw : BlockLaw P) {blocks : List Bytes} (hsmall : Small blocks)
    {fuel : Nat} (hfuel : blocks.length < fuel) {c : Cursor}
    (hc : c.Ahead (Bytes.join (blocks.map (legacyRecord P)))) (out : Bytes) :
    legacyRecords P none fuel c out = .ok (out ++ Bytes.join blocks) := by
  induction blocks generalizing fuel c out with
  | nil =>
    obtain ⟨fuel, rfl⟩ := Nat.exists_eq_succ_of_ne_zero (Nat.ne_of_gt hfuel)
    rw [legacyRecords, if_pos (hc.atEnd_iff.mpr rfl), Bytes.join_nil, ByteArray.append_empty]
    rfl
  | cons block rest ih =>
    obtain ⟨fuel, rfl⟩ := Nat.exists_eq_succ_of_ne_zero (Nat.ne_of_gt (Nat.zero_lt_of_lt hfuel))
    obtain ⟨hdecode, hpacked⟩ := hlaw block (hsmall block List.mem_cons_self)
    rw [List.map_cons, Bytes.join_cons, legacyRecord, ByteArray.append_assoc] at hc
    have hmore : c.atEnd ≠ true := by
      rw [Ne, hc.atEnd_iff, ByteArray.size_append, LittleEndian.size_encode]
      omega
    obtain ⟨c₁, hsize, hc₁⟩ := Cursor.reads_unsigned hpacked c _ hc
    obtain ⟨c₂, hbytes, hc₂⟩ := Cursor.reads_bytes (P.lz4Block block) c₁ _ hc₁
    have hrest := ih (fun b hb => hsmall b (List.mem_cons_of_mem block hb))
      (Nat.lt_of_succ_lt_succ hfuel) hc₂ (out ++ block)
    rw [legacyRecords, if_neg hmore, Bytes.join_cons, ← ByteArray.append_assoc]
    refine except_bind_eq_ok.mpr ⟨_, hsize, except_bind_eq_ok.mpr ⟨_, hbytes, ?_⟩⟩
    dsimp only
    rw [hdecode]
    exact hrest

/-- Every record holds at least its size, so that the fuel covers them all. -/
theorem length_le_size_records (P : Primitives) (blocks : List Bytes) :
    blocks.length ≤ (Bytes.join (blocks.map (legacyRecord P))).size := by
  induction blocks with
  | nil => exact Nat.zero_le _
  | cons block rest ih =>
    rw [List.map_cons, Bytes.join_cons, ByteArray.size_append, legacyRecord,
      ByteArray.size_append, LittleEndian.size_encode, List.length_cons]
    omega

/-- **A member in the legacy framing expands to its blocks.** -/
theorem unlz4_legacyMember (hlaw : BlockLaw P) {blocks : List Bytes} (hsmall : Small blocks) :
    unlz4Legacy P (legacyMember P blocks) none = .ok (Bytes.join blocks) := by
  have hmagic : Field.read 4 (legacyMember P blocks) 0 = .ok Lz4Params.legacyMagic :=
    Field.read_encode ByteArray.empty_append.symm rfl (by decide)
  have hrecords : (legacyMember P blocks).dropFirst 4 =
      Bytes.join (blocks.map (legacyRecord P)) :=
    Bytes.dropFirst_of_append rfl (LittleEndian.size_encode _ _)
  rw [unlz4Legacy, hmagic]
  refine except_bind_eq_ok.mpr ⟨_, rfl, ?_⟩
  dsimp only
  rw [if_neg (fun hne => hne rfl), hrecords]
  have h := legacyRecords_blocks hlaw hsmall
    (Nat.lt_succ_of_le (length_le_size_records P blocks)) (Cursor.ahead_start _) ByteArray.empty
  rwa [ByteArray.empty_append] at h

end Member

end BlockUpdate
