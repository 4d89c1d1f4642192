import BlockUpdate.Patch.Image
import BlockUpdate.Proofs.Receivers

/-!
# The errors of a patch

Errors of a device pass through a patch unchanged, but a patch has none of its own: it fails because
its fields, its ranges, its sizes or its streams are bad.

- `OwnErrors`, `Emit.OwnErrors`: a reader or an output never fails as a device does.
- `Emit.Plain`: an output never fails as a device does and does not depend on what was handed over
  before it. Both are found by one rule for each of its steps.
- **`BlockPatch.ownErrors_apply`**, **`ImagePatch.ownErrors_apply`**: patches do not.
-/

namespace BlockUpdate

/-! ## Readers -/

/-- Reading does not fail as a device does. -/
def OwnErrors {α : Type} (x : Except PatchError α) : Prop := ∀ e, x = .error e → ∀ os, e ≠ .os os

namespace OwnErrors

variable {α β : Type} {x y : Except PatchError α}

theorem ok (a : α) : OwnErrors (.ok a : Except PatchError α) := fun _ h => nomatch h

theorem error {e : PatchError} (h : ∀ os, e ≠ .os os) :
    OwnErrors (.error e : Except PatchError α) := by
  rintro _ ⟨⟩
  exact h

theorem bind {f : α → Except PatchError β} (hx : OwnErrors x) (hf : ∀ a, OwnErrors (f a)) :
    OwnErrors (x >>= f) := by
  cases x with
  | ok a => exact hf a
  | error e => exact error (hx e rfl)

theorem map (f : α → β) (hx : OwnErrors x) : OwnErrors (x.map f) := by
  cases x with
  | ok a => exact ok (f a)
  | error e => exact error (hx e rfl)

theorem ite {p : Prop} [Decidable p] (hx : OwnErrors x) (hy : OwnErrors y) :
    OwnErrors (if p then x else y) := by
  split
  · exact hx
  · exact hy

end OwnErrors

open OwnErrors (ok error)

theorem ownErrors_window (b : Bytes) (offset count : Nat) :
    OwnErrors (Field.window b offset count) := by
  rw [Field.window]
  split
  · exact ok _
  · exact error nofun

theorem ownErrors_signed (b : Bytes) (offset : Nat) : OwnErrors (SignMagnitude.read b offset) :=
  ((ownErrors_window b offset 8).map _).map _

theorem Cursor.ownErrors_bytes (c : Cursor) (count : Nat) : OwnErrors (c.bytes count) :=
  (ownErrors_window _ _ _).bind fun _ => ok _

theorem Cursor.ownErrors_unsigned (c : Cursor) (width : Nat) : OwnErrors (c.unsigned width) :=
  (c.ownErrors_bytes width).bind fun _ => ok _

theorem Cursor.ownErrors_signed32 (c : Cursor) : OwnErrors c.signed32 :=
  (c.ownErrors_unsigned 4).bind fun _ => ok _

/-! ## Output -/

/-- An output does not fail as a device does. -/
def Emit.OwnErrors {α : Type} (x : Emit α) : Prop :=
  ∀ pieces, BlockUpdate.OwnErrors (outcome x pieces).1

/-- An emission ends as its computation does. -/
theorem Emit.OwnErrors.emission {α : Type} {x : Emit α} (hx : Emit.OwnErrors x) :
    BlockUpdate.OwnErrors x.emission.outcome := hx #[]

/-- An output that depends on nothing but its inputs: not on what was handed over before, nor on a
device. -/
structure Emit.Plain {α : Type} (x : Emit α) : Prop where
  steady : Emit.Steady x
  own : BlockUpdate.OwnErrors x.emission.outcome

namespace Emit.Plain

variable {α β : Type} {x y : Emit α}

theorem ownErrors (hx : Emit.Plain x) : Emit.OwnErrors x := by
  intro before
  rw [hx.steady]
  exact hx.own

theorem pure (a : α) : Emit.Plain (Pure.pure a : Emit α) :=
  ⟨.pure a, by rw [emission_pure]; exact ok a⟩

theorem throw {e : PatchError} (h : ∀ os, e ≠ .os os) :
    Emit.Plain (MonadExcept.throw e : Emit α) :=
  ⟨.throw e, by rw [emission_throw]; exact error h⟩

theorem emit (piece : Bytes) : Emit.Plain (emit piece) :=
  ⟨.emit piece, by rw [emission_emit]; exact ok ()⟩

theorem ofExcept {r : Except PatchError α} (h : BlockUpdate.OwnErrors r) :
    Emit.Plain (ofExcept r) := by
  cases r with
  | ok a => exact pure a
  | error e => exact throw (h e rfl)

theorem bind {f : α → Emit β} (hx : Emit.Plain x) (hf : ∀ a, Emit.Plain (f a)) :
    Emit.Plain (x >>= f) := by
  refine ⟨hx.steady.bind fun a => (hf a).steady, ?_⟩
  cases hend : x.emission.outcome with
  | error e =>
    rw [emission_bind_of_error hend]
    exact error (hx.own e hend)
  | ok a =>
    rw [emission_bind_of_ok hend (hf a).steady]
    exact (hf a).own

theorem ite {p : Prop} [Decidable p] (hx : Emit.Plain x) (hy : Emit.Plain y) :
    Emit.Plain (if p then x else y) := by
  split
  · exact hx
  · exact hy

end Emit.Plain

/-! ## Block patches -/

namespace BlockPatch

theorem ownErrors_header (patch : Bytes) : OwnErrors (Header.parse patch) := by
  refine .ite (error nofun) (.ite (error nofun) ?_)
  refine (ownErrors_signed _ _).bind fun _ => (ownErrors_signed _ _).bind fun _ =>
    (ownErrors_signed _ _).bind fun _ => ?_
  exact .ite (error nofun) (.ite (error nofun) (ok _))

theorem ownErrors_controlAt (control : Bytes) (offset : Nat) :
    OwnErrors (controlAt control offset) := by
  rw [controlAt]
  cases control.slice? offset controlBytes with
  | none => exact error (by simp)
  | some triple =>
    exact (ownErrors_signed _ _).bind fun _ => (ownErrors_signed _ _).bind fun _ =>
      (ownErrors_signed _ _).bind fun _ => ok _

theorem plain_diffRun (s : Streams) (old : Bytes) (remaining : Nat) (c : Cursors) :
    Emit.Plain (diffRun s old remaining c) := by
  induction remaining using Nat.strongRecOn generalizing c with
  | ind remaining ih =>
    rw [diffRun]
    split
    · exact .pure _
    · rename_i hmore
      refine .ite (.throw nofun) ?_
      cases s.diff.slice? c.diff (min remaining runSize) with
      | none => exact .throw nofun
      | some piece => 
        have : 0 < runSize := by decide
        exact .bind (.emit _) fun _ => ih _ (by omega) _

theorem plain_extraRun (s : Streams) (remaining : Nat) (c : Cursors) :
    Emit.Plain (extraRun s remaining c) := by
  induction remaining using Nat.strongRecOn generalizing c with
  | ind remaining ih =>
    rw [extraRun]
    split
    · exact .pure _
    · dsimp only
      cases s.extra.slice? c.extra (min remaining runSize) with
      | none => exact .throw nofun
      | some piece =>
        have : 0 < runSize := by decide
        exact .bind (.emit _) fun _ => ih _ (by omega) _

theorem plain_step (s : Streams) (old : Bytes) (newSize : Nat) (t : Control) (made : Nat)
    (c : Cursors) : Emit.Plain (step s old newSize t made c) := by
  refine .ite (.throw nofun) (.ite (.throw nofun) ?_)
  refine .bind (plain_diffRun _ _ _ _) fun _ => .ite (.throw nofun) ?_
  exact .bind (plain_extraRun _ _ _) fun _ => .ite (.throw nofun) (.pure _)

theorem plain_loop (s : Streams) (old : Bytes) (newSize offset made : Nat) (c : Cursors) :
    Emit.Plain (loop s old newSize offset made c) := by
  fun_induction loop s old newSize offset made c with
  | case1 => exact .pure _
  | case2 offset made c hmore e h => exact .throw (ownErrors_controlAt _ _ _ h)
  | case3 offset made c hmore t h hle ih =>
    exact .bind (plain_step _ _ _ _ _ _) fun a => ih a.1 a.2

theorem plain_apply (P : Primitives) (patch old : Bytes) : Emit.Plain (apply P patch old) :=
  .bind (.ofExcept (ownErrors_header patch)) fun _ =>
    .bind (plain_loop _ _ _ _ _ _) fun _ => .pure _

/-- **A block patch does not fail as a device does.** -/
theorem ownErrors_apply (P : Primitives) (patch old : Bytes) :
    Emit.OwnErrors (apply P patch old) := (plain_apply P patch old).ownErrors

end BlockPatch

/-! ## Members -/

namespace Member

theorem ownErrors_bounded (stage : CodecStage) (limit : Option Nat) (d : Decoded) :
    OwnErrors (bounded stage limit d) := by
  cases limit with
  | none => exact .ite (error nofun) (ok _)
  | some n => exact .ite (error nofun) (.ite (error nofun) (ok _))

theorem ownErrors_exactly (size : Nat) (data : Bytes) : OwnErrors (exactly size data) :=
  .ite (ok _) (error nofun)

theorem ownErrors_legacyRecords (P : Primitives) (limit : Option Nat) (fuel : Nat) (c : Cursor)
    (out : Bytes) : OwnErrors (legacyRecords P limit fuel c out) := by
  induction fuel generalizing c out with
  | zero => exact ok _
  | succ fuel ih =>
    refine .ite (ok _) ((c.ownErrors_unsigned 4).bind fun size =>
      (size.2.ownErrors_bytes _).bind ?_)
    rintro ⟨block, c⟩
    dsimp only
    cases P.unlz4Block legacyBlock block with
    | none => exact error nofun
    | some piece =>
      cases limit with
      | none => exact ih _ _
      | some n => exact .ite (error nofun) (ih _ _)

theorem ownErrors_inflateExact (P : Primitives) (container : DeflateContainer) (data : Bytes)
    (size : Nat) : OwnErrors (inflateExact P container data size) :=
  (ownErrors_bounded _ _ _).bind fun _ => ownErrors_exactly _ _

theorem ownErrors_unlz4Exact (P : Primitives) (params : Lz4Params) (data : Bytes) (size : Nat) :
    OwnErrors (unlz4Exact P params data size) := by
  refine .bind (.ite ?_ (ownErrors_bounded _ _ _)) fun _ => ownErrors_exactly _ _
  exact ((ownErrors_window data 0 4).map _).bind fun _ =>
    .ite (error nofun) (ownErrors_legacyRecords _ _ _ _ _)

end Member

/-! ## Adapters -/

namespace Adapter

theorem plain_drain (pending : Bytes) : Emit.Plain (drain pending) :=
  .ite (.bind (.emit _) fun _ => .pure _) (.pure _)

/-- The operations of an adapter depend on its state and the data alone. -/
structure Plain (A : Adapter) : Prop where
  write : ∀ s data, Emit.Plain (A.write s data)
  flush : ∀ s, Emit.Plain (A.flush s)

theorem plain_ofEncoder (name : String) (E : Encoder) : (ofEncoder name E).Plain where
  write a data := by
    obtain ⟨_ | stream, emitted⟩ := a
    · exact .throw nofun
    · exact .ite (.bind (plain_drain _) fun _ => .pure _) (.pure _)
  flush a := by
    obtain ⟨_ | stream, emitted⟩ := a
    · exact .throw nofun
    · exact .bind (plain_drain _) fun _ => .pure _

theorem plain_lz4Legacy (P : Primitives) : (lz4Legacy P).Plain where
  write _ _ := .ite (.throw nofun) (.ite (.bind (plain_drain _) fun _ => .pure _) (.pure _))
  flush _ := .ite (.throw nofun) (.bind (plain_drain _) fun _ => .pure _)

theorem plain_lz4 (P : Primitives) (params : Lz4Params) : (lz4 P params).Plain := by
  rw [lz4]
  split
  · exact plain_lz4Legacy P
  · exact plain_ofEncoder _ _

variable {A : Adapter}

theorem Plain.writeAll (h : A.Plain) (pieces : List Bytes) (s : A.State) :
    Emit.Plain (writeAll A pieces s) := by
  induction pieces generalizing s with
  | nil => exact .pure _
  | cons piece rest ih => exact .bind (h.write _ _) fun _ => ih _

theorem Plain.recompress (h : A.Plain) (P : Primitives) {α : Type} {e : Emission α}
    (he : OwnErrors e.outcome) : Emit.Plain (recompress P A e) := by
  refine .bind (h.writeAll _ _) fun s => ?_
  cases hend : e.outcome with
  | error err => exact .throw (he err hend)
  | ok a => exact .bind (h.flush s) fun _ => .pure _

end Adapter

/-! ## Image patches -/

theorem Chunk.ownErrors_read (c : Cursor) : OwnErrors (Chunk.read c) := by
  have hwindow : ∀ c, OwnErrors (readWindow c) := fun c =>
    (c.ownErrors_unsigned 8).bind fun start => (start.2.ownErrors_unsigned 8).bind fun _ => ok _
  have hmember : ∀ c, OwnErrors (readMember c) := fun c =>
    (hwindow c).bind fun source => (source.2.ownErrors_unsigned 8).bind fun offset =>
      (offset.2.ownErrors_unsigned 8).bind fun expanded =>
        (expanded.2.ownErrors_unsigned 8).bind fun _ => ok _
  have hfields : ∀ c, OwnErrors (readDeflate c) := fun c =>
    c.ownErrors_signed32.bind fun a => a.2.ownErrors_signed32.bind fun b =>
      b.2.ownErrors_signed32.bind fun d => d.2.ownErrors_signed32.bind fun e =>
        e.2.ownErrors_signed32.bind fun _ => ok _
  have hfields' : ∀ c, OwnErrors (readLz4 c) := fun c =>
    c.ownErrors_signed32.bind fun a => a.2.ownErrors_signed32.bind fun b =>
      b.2.ownErrors_signed32.bind fun d => d.2.ownErrors_signed32.bind fun e =>
        e.2.ownErrors_signed32.bind fun f => f.2.ownErrors_signed32.bind fun _ => ok _
  refine (c.ownErrors_unsigned 4).bind ?_
  rintro ⟨kind, c⟩
  dsimp only
  split
  · exact (hwindow c).bind fun source => (source.2.ownErrors_unsigned 8).bind fun _ => ok _
  · exact (hmember c).bind fun header => (hfields header.2).bind fun _ => ok _
  · exact (hmember c).bind fun header => (hfields header.2).bind fun _ => ok _
  · exact (c.ownErrors_unsigned 4).bind fun length =>
      (length.2.ownErrors_bytes _).bind fun _ => ok _
  · exact (hmember c).bind fun header => (hfields' header.2).bind fun _ => ok _
  · exact error nofun

namespace ImagePatch

theorem ownErrors_sourceWindow (old : Bytes) (w : Window) : OwnErrors (sourceWindow old w) := by
  rw [sourceWindow]
  split
  · exact ok _
  · exact error nofun

theorem ownErrors_blockPatchAt (patch : Bytes) (offset : Nat) :
    OwnErrors (blockPatchAt patch offset) := .ite (ok _) (error nofun)

theorem plain_applyMember (P : Primitives) (patch : Bytes) (h : MemberHeader)
    (contents : Bytes) {A : Adapter} (hA : A.Plain) :
    Emit.Plain (applyMember P patch h contents A) :=
  .bind (.ofExcept (ownErrors_blockPatchAt _ _)) fun _ =>
    .bind (hA.recompress P (BlockPatch.plain_apply _ _ _).own) fun _ =>
      .ite (.throw nofun) (.pure _)

theorem plain_applyChunk (P : Primitives) (patch old : Bytes) (chunk : Chunk) :
    Emit.Plain (applyChunk P patch old chunk) := by
  cases chunk with
  | normal source patchOffset =>
    exact .bind (.ofExcept (ownErrors_sourceWindow _ _)) fun _ =>
      .bind (.ofExcept (ownErrors_blockPatchAt _ _)) fun _ => BlockPatch.plain_apply _ _ _
  | raw data => exact .bind (.emit _) fun _ => .pure _
  | deflate gzip header params =>
    exact .bind (.ofExcept (ownErrors_sourceWindow _ _)) fun _ =>
      .bind (.ofExcept (Member.ownErrors_inflateExact _ _ _ _)) fun _ =>
        plain_applyMember _ _ _ _ (Adapter.plain_ofEncoder _ _)
  | lz4 header params =>
    exact .bind (.ofExcept (ownErrors_sourceWindow _ _)) fun _ =>
      .bind (.ofExcept (Member.ownErrors_unlz4Exact _ _ _ _)) fun _ =>
        plain_applyMember _ _ _ _ (Adapter.plain_lz4 _ _)

theorem plain_applyChunks (P : Primitives) (patch old : Bytes) (n : Nat) (c : Cursor)
    (written : Nat) : Emit.Plain (applyChunks P patch old n c written) := by
  induction n generalizing c written with
  | zero => exact .pure _
  | succ n ih =>
    exact .bind (.ofExcept (Chunk.ownErrors_read c)) fun _ =>
      .bind (plain_applyChunk _ _ _ _) fun _ => ih _ _

theorem ownErrors_readCount (patch : Bytes) : OwnErrors (readCount patch) :=
  (Cursor.ownErrors_bytes _ _).bind fun _ =>
    .ite (error nofun) (Cursor.ownErrors_unsigned _ _)

theorem plain_apply (P : Primitives) (patch old : Bytes) : Emit.Plain (apply P patch old) :=
  .bind (.ofExcept (ownErrors_readCount patch)) fun _ => plain_applyChunks _ _ _ _ _ _

/-- **An image patch does not fail as a device does.** -/
theorem ownErrors_apply (P : Primitives) (patch old : Bytes) :
    Emit.OwnErrors (apply P patch old) := (plain_apply P patch old).ownErrors

end ImagePatch

end BlockUpdate
