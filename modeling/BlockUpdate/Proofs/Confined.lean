import BlockUpdate.Proofs.Overwrite
import BlockUpdate.Proofs.Region
import Mathlib.Order.Defs.Unbundled

/-!
# What a computation changes, however it ends

A computation that fails half-way leaves what it wrote before. What is said here holds of every
end, on every device: no fault is excluded, and no success is assumed.

- `Leaves R x s`: started in `s`, the computation ends in a state that the relation `R` allows.
- `Leaves.bind`: a relation that allows each part of a sequence allows the sequence.
- `Device.Confined region`: the image differs at the bytes of a region only, and has not grown
  beyond them.
- **`BlockSet.confined_write`**, **`confined_zero`**: buffers and zeros stay within their set.
- **`BlockSet.confined_receive`**, **`Feed.confined_fill`**: so do streams, and a dry run of one
  leaves the device alone.
-/

namespace BlockUpdate

section Leaves

variable {ε ε' σ τ α β : Type} {R : σ → σ → Prop}

/-- However a computation ends, it ends in a state that a relation allows. -/
def Leaves (R : σ → σ → Prop) (x : ExceptT ε (StateM σ) α) (s : σ) : Prop := R s (outcome x s).2

namespace Leaves

variable {s : σ}

/-- A change of the state. -/
theorem modify {f : σ → σ} (h : R s (f s)) :
    Leaves R (modify f : ExceptT ε (StateM σ) PUnit) s := h

/-- The state is read. -/
theorem get_bind {f : σ → ExceptT ε (StateM σ) β} (h : Leaves R (f s) s) :
    Leaves R (get >>= f) s := by
  unfold Leaves
  rwa [outcome_get_bind]

theorem ite {p : Prop} [Decidable p] {x y : ExceptT ε (StateM σ) α} (hx : p → Leaves R x s)
    (hy : ¬ p → Leaves R y s) : Leaves R (if p then x else y) s := by
  split
  · exact hx ‹p›
  · exact hy ‹¬ p›

/-- One after the other, where the second part does not undo what the first one did. -/
theorem bind_of_absorbs {S : σ → σ → Prop} {x : ExceptT ε (StateM σ) α}
    {f : α → ExceptT ε (StateM σ) β} (hx : Leaves S x s)
    (hf : ∀ a t, outcome x s = (.ok a, t) → Leaves R (f a) t)
    (hSR : ∀ t u, S s t → R t u → S s u) : Leaves S (x >>= f) s := by
  unfold Leaves at *
  rcases hrun : outcome x s with ⟨e | a, t⟩ <;> rw [hrun] at hx
  · rwa [outcome_bind_of_error hrun]
  · rw [outcome_bind_of_ok hrun]
    exact hSR _ _ hx (hf a t hrun)

variable [IsPreorder σ R]

theorem pure (a : α) : Leaves R (Pure.pure a : ExceptT ε (StateM σ) α) s := refl_of R s

theorem throw (e : ε) : Leaves R (MonadExcept.throw e : ExceptT ε (StateM σ) α) s := refl_of R s

/-- **One after the other**: the second part starts where a success of the first part ended. -/
theorem bind {x : ExceptT ε (StateM σ) α} {f : α → ExceptT ε (StateM σ) β} (hx : Leaves R x s)
    (hf : ∀ a t, outcome x s = (.ok a, t) → R s t → Leaves R (f a) t) : Leaves R (x >>= f) s :=
  bind_of_absorbs hx (fun a t hrun => hf a t hrun (by rwa [Leaves, hrun] at hx))
    fun _ _ => trans_of R

end Leaves

end Leaves

/-! ## Devices -/

namespace Device

/-- A device whose image differs from another at the bytes of a region only. It is no shorter, and
longer only as far as the region reaches. -/
structure Confined (region : Nat → Prop) (d d' : Device) : Prop where
  byte : ∀ i, ¬ region i → d'.image.byte i = d.image.byte i
  size_le : d.image.size ≤ d'.image.size
  growth : ∀ n, (∀ i, region i → i < n) → d.image.size ≤ n → d'.image.size ≤ n
  faults : d'.faults = d.faults
  endless : d'.endless = d.endless
  discards : d'.discards = d.discards

namespace Confined

variable {region region' : Nat → Prop} {d d' : Device}

theorem refl (d : Device) : Confined region d d :=
  ⟨fun _ _ => rfl, Nat.le_refl _, fun _ _ h => h, rfl, rfl, rfl⟩

theorem trans {d'' : Device} (h : Confined region d d') (h' : Confined region d' d'') :
    Confined region d d'' where
  byte i hi := (h'.byte i hi).trans (h.byte i hi)
  size_le := Nat.le_trans h.size_le h'.size_le
  growth n hn hsize := h'.growth n hn (h.growth n hn hsize)
  faults := h'.faults.trans h.faults
  endless := h'.endless.trans h.endless
  discards := h'.discards.trans h.discards

instance : IsPreorder Device (Confined region) where
  refl := refl
  trans _ _ _ := trans

theorem mono (h : Confined region d d') (hregion : ∀ i, region i → region' i) :
    Confined region' d d' where
  byte i hi := h.byte i fun hin => hi (hregion i hin)
  size_le := h.size_le
  growth n hn := h.growth n fun i hi => hn i (hregion i hi)
  faults := h.faults
  endless := h.endless
  discards := h.discards

/-- Where nothing may change, nothing does. -/
theorem image_eq (h : Confined region d d') (hnone : ∀ i, ¬ region i) : d'.image = d.image := by
  refine Bytes.ext_byte ?_ fun i => h.byte i (hnone i)
  exact Nat.le_antisymm (h.growth _ (fun i hi => absurd hi (hnone i)) (Nat.le_refl _)) h.size_le

/-- Overwriting a window. -/
theorem writeAt {start : Nat} {data : Bytes} (hdata : data.size ≠ 0)
    (hwindow : ∀ i, start ≤ i → i < start + data.size → region i) (writes : Nat) :
    Confined region d { d with image := d.image.writeAt start data, writes } where
  byte i hi := by
    rw [Bytes.byte_writeAt, if_neg]
    rintro ⟨hle, hlt⟩
    exact hi (hwindow i hle hlt)
  size_le := by
    rw [Bytes.size_writeAt]
    exact Nat.le_max_left ..
  growth n hn hsize := by
    have hlast := hn (start + data.size - 1) (hwindow _ (by omega) (by omega))
    rw [Bytes.size_writeAt]
    omega
  faults := rfl
  endless := rfl
  discards := rfl

end Confined

end Device

/-- **One write** changes its window at most, also when it fails after a part of it. -/
theorem DeviceM.confined_write {region : Nat → Prop} {start : Nat} {data : Bytes}
    (hwindow : ∀ i, start ≤ i → i < start + data.size → region i) (d : Device) :
    Leaves (Device.Confined region) (DeviceM.write start data) d := by
  show d.Confined region (d.write start data).2
  unfold Device.write
  by_cases hempty : data.size = 0
  · rw [if_pos hempty]
    exact .refl d
  by_cases hstart : Device.offsetLimit ≤ start
  · rw [if_neg hempty, if_pos hstart]
    exact .refl d
  rw [if_neg hempty, if_neg hstart]
  cases d.faults.write d.writes with
  | none => exact .writeAt hempty hwindow _
  | some fault =>
    by_cases hlanded : (data.takeFirst fault.landed).size = 0
    · simp only [if_pos hlanded]
      exact ⟨fun _ _ => rfl, Nat.le_refl _, fun _ _ h => h, rfl, rfl, rfl⟩
    · simp only [if_neg hlanded]
      refine .writeAt hlanded (fun i hle hlt => hwindow i hle ?_) _
      have hsize := Bytes.size_takeFirst data fault.landed
      omega

/-- **A discard** changes its window at most. -/
theorem DeviceM.confined_discard {ε : Type} {region : Nat → Prop} {start len : Nat}
    (hwindow : ∀ i, start ≤ i → i < start + len → region i) (d : Device) :
    Leaves (Device.Confined region) (DeviceM.discard start len : DeviceM ε Bool) d := by
  show d.Confined region (d.discard start len).2
  unfold Device.discard
  split
  next => exact .refl d
  next how _ =>
    split
    · by_cases hleft : (how.left start len).size = 0
      · simp only [if_pos hleft]
        exact ⟨fun _ _ => rfl, Nat.le_refl _, fun _ _ h => h, rfl, rfl, rfl⟩
      · simp only [if_neg hleft]
        refine .writeAt hleft (fun i hle hlt => hwindow i hle ?_) _
        rwa [how.size_left] at hlt
    · exact .refl d

theorem DeviceM.confined_sync {region : Nat → Prop} (d : Device) :
    Leaves (Device.Confined region) DeviceM.sync d := Device.Confined.refl d

/-- Renamed errors leave the device as it is. -/
theorem Leaves.deviceMapError {ε ε' α : Type} {R : Device → Device → Prop} {f : ε → ε'}
    {x : DeviceM ε α} {d : Device} (h : Leaves R x d) : Leaves R (DeviceM.mapError f x) d := by
  unfold Leaves
  rw [outcome_deviceMapError]
  exact h

namespace BlockSet

variable {region : Nat → Prop}

/-! ## Buffers and zeros -/

theorem confined_writeRanges (data : Bytes) {ranges : List BlockRange}
    (hregion : ∀ i, InRanges ranges i → region i) (position : Nat) (d : Device) :
    Leaves (Device.Confined region) (writeRanges data ranges position) d := by
  induction ranges generalizing position d with
  | nil => exact Leaves.pure position
  | cons r rest ih =>
    refine Leaves.bind (DeviceM.confined_write (fun i hle hlt => hregion i ?_) d) fun _ t _ _ =>
      ih (fun i hi => hregion i ((inRanges_cons ..).mpr (.inr hi))) _ t
    rw [ByteArray.size_extract] at hlt
    exact (inRanges_cons ..).mpr (.inl ⟨hle, by omega⟩)

/-- **A buffer stays within the set that it is written to.** -/
theorem confined_write (set : BlockSet) (data : Bytes) (d : Device) :
    Leaves (Device.Confined set.HasByte) (set.write data) d := by
  unfold write
  cases set.checkBuffer data.size with
  | error e => exact Leaves.throw e
  | ok _ => exact (confined_writeRanges data (fun _ => id) 0 d).deviceMapError

variable {run : Nat} {hrun : 0 < run}

theorem confined_zeroFrom {start length : Nat}
    (hwindow : ∀ i, start ≤ i → i < start + length → region i) (done : Nat) (d : Device) :
    Leaves (Device.Confined region) (zeroFrom run hrun start length done) d := by
  fun_induction zeroFrom run hrun start length done generalizing d with
  | case1 done h n ih =>
    have hn : n ≤ length - done := Nat.min_le_left ..
    refine Leaves.bind (DeviceM.confined_write (fun i hle hlt => hwindow i (by omega) ?_) d)
      fun _ t _ _ => ih t
    rw [Bytes.size_zeros] at hlt
    omega
  | case2 done h => exact Leaves.pure _

/-- Whether a range is discarded or zeros are written to it, nothing else changes. -/
theorem confined_clearRanges {ranges : List BlockRange}
    (hregion : ∀ i, InRanges ranges i → region i) (discarding : Bool) (d : Device) :
    Leaves (Device.Confined region) (clearRanges run hrun discarding ranges) d := by
  induction ranges generalizing d with
  | nil => exact Leaves.pure _
  | cons r rest ih =>
    have hwindow : ∀ i, r.byteStart ≤ i → i < r.byteStart + r.byteLength → region i :=
      fun i hle hlt => hregion i ((inRanges_cons ..).mpr (.inl ⟨hle, hlt⟩))
    have hrest (t : Device) : Leaves (Device.Confined region)
        (clearRanges run hrun discarding rest) t :=
      ih (fun i hi => hregion i ((inRanges_cons ..).mpr (.inr hi))) t
    have hzeros (t : Device) : Leaves (Device.Confined region)
        (zeroFrom run hrun r.byteStart r.byteLength 0 >>= fun _ =>
          clearRanges run hrun discarding rest) t :=
      Leaves.bind (confined_zeroFrom hwindow 0 t) fun _ u _ _ => hrest u
    rw [clearRanges]
    cases discarding with
    | false => exact hzeros d
    | true =>
      refine Leaves.bind (DeviceM.confined_discard hwindow d) fun discarded t _ _ => ?_
      cases discarded with
      | false => exact hzeros t
      | true => exact hrest t

/-- **A set that is cleared stays within its ranges**, on a block device too. -/
theorem confined_zero (set : BlockSet) (isErase allowFileErase : Bool) (d : Device) :
    Leaves (Device.Confined set.HasByte) (set.zero isErase allowFileErase) d := by
  have hclear : Leaves (Device.Confined set.HasByte)
      (if hrun : 0 < min zeroRun set.byteLength then
        (clearRanges (min zeroRun set.byteLength) hrun (isErase && d.isBlockDevice)
          set.ranges).mapError .os
      else pure () : DeviceM BlockError Unit) d := by
    split
    · exact (confined_clearRanges (fun _ => id) _ d).deviceMapError
    · exact Leaves.pure _
  unfold zero
  refine Leaves.get_bind ?_
  dsimp only
  split
  · exact Leaves.bind (Leaves.throw _) fun _ _ h => by cases h
  · exact hclear

end BlockSet

/-! ## Streams -/

namespace BlockWriter

/-- The bytes that a writer may change. -/
def Reaches (w : BlockWriter) (i : Nat) : Prop := w.dryRun = false ∧ w.set.HasByte i

end BlockWriter

namespace Writing

/-- A writer on the same set that changed its device within reach. -/
structure Confined (s s' : Writing) : Prop where
  set : s'.writer.set = s.writer.set
  dryRun : s'.writer.dryRun = s.writer.dryRun
  device : s.device.Confined s.writer.Reaches s'.device

theorem Confined.reaches {s s' : Writing} (h : Confined s s') :
    s'.writer.Reaches = s.writer.Reaches := by
  funext i
  rw [BlockWriter.Reaches, BlockWriter.Reaches, h.set, h.dryRun]

instance : IsPreorder Writing Confined where
  refl _ := ⟨rfl, rfl, .refl _⟩
  trans _ _ _ h h' :=
    ⟨h'.set.trans h.set, h'.dryRun.trans h.dryRun, h.device.trans (h.reaches ▸ h'.device)⟩

end Writing

namespace BlockWriter

variable {ε ε' α : Type}

/-- What is done to the device within reach. -/
theorem confined_onDevice {x : DeviceM ε α} {s : Writing}
    (h : Leaves (Device.Confined s.writer.Reaches) x s.device) :
    Leaves Writing.Confined (onDevice x) s := ⟨rfl, rfl, h⟩

theorem confined_mapError {f : ε → ε'} {x : WritingM ε α} {s : Writing}
    (h : Leaves Writing.Confined x s) : Leaves Writing.Confined (mapError f x) s := by
  unfold Leaves
  rw [outcome_writerMapError]
  exact h

theorem confined_advance (s : Writing) (n len : Nat) :
    s.Confined { s with writer := s.writer.advance n len } := by
  unfold advance
  split <;> exact ⟨rfl, rfl, .refl _⟩

/-- What is written of a range under way lies in the range: a writer that stands behind it has no
room there. -/
theorem confined_writeRanges (data : Bytes) {ranges : List BlockRange} {s : Writing}
    (hranges : ∀ r ∈ ranges, r ∈ s.writer.set.ranges) (consumed : Nat) :
    Leaves Writing.Confined (writeRanges data ranges consumed) s := by
  induction ranges generalizing consumed s with
  | nil => exact Leaves.pure consumed
  | cons r rest ih =>
    refine Leaves.ite (fun _ => Leaves.pure consumed) fun _ => Leaves.get_bind ?_
    have hwrite : s.writer.dryRun = false → ∀ n ≤ r.byteLength - s.writer.rangeOffset,
        Leaves Writing.Confined (onDevice (DeviceM.write (r.byteStart + s.writer.rangeOffset)
          (data.extract consumed (consumed + n)))) s := by
      intro hlive n hn
      refine confined_onDevice (DeviceM.confined_write (fun i hle hlt => ⟨hlive, r, ?_⟩) s.device)
      rw [ByteArray.size_extract] at hlt
      exact ⟨hranges r List.mem_cons_self, by omega, by omega⟩
    have hrest : ∀ (t : Writing) (n : Nat), s.Confined t →
        Leaves Writing.Confined (do
          modify fun s => { s with writer := s.writer.advance n r.byteLength }
          if n = r.byteLength - s.writer.rangeOffset then writeRanges data rest (consumed + n)
          else return consumed + n) t := by
      intro t n ht
      refine Leaves.bind (Leaves.modify (confined_advance t n r.byteLength)) fun _ t' _ ht' =>
        Leaves.ite (fun _ => ih (fun q hq => ?_) _) fun _ => Leaves.pure _
      rw [ht'.set, ht.set]
      exact hranges q (List.mem_cons_of_mem r hq)
    refine Leaves.ite (fun hlive => ?_) fun _ => hrest s _ (refl_of _ s)
    exact Leaves.bind (hwrite (by simpa using hlive) _ (Nat.min_le_left ..))
      fun _ t _ ht => hrest t _ ht

theorem confined_write (data : Bytes) (s : Writing) :
    Leaves Writing.Confined (write data) s :=
  Leaves.get_bind (confined_writeRanges data (fun _ => List.mem_of_mem_drop) 0)

theorem confined_put (data : Bytes) (s : Writing) : Leaves Writing.Confined (put data) s :=
  Leaves.get_bind <| Leaves.ite (fun _ => Leaves.throw _) fun _ =>
    Leaves.bind (confined_mapError (confined_write data s)) fun _ _ _ _ => Leaves.pure _

theorem confined_finish (s : Writing) : Leaves Writing.Confined finish s := by
  have hsync : Leaves Writing.Confined
      (mapError .os (onDevice DeviceM.sync) : WritingM BlockError Unit) s :=
    confined_mapError (confined_onDevice (DeviceM.confined_sync s.device))
  exact Leaves.get_bind <| Leaves.ite (fun _ => Leaves.throw _) fun _ =>
    Leaves.ite (fun _ => Leaves.bind hsync fun _ _ _ _ => Leaves.pure _) fun _ => Leaves.pure _

theorem confined_deliverPieces (pieces : List Bytes) (s : Writing) :
    s.Confined (Emission.deliverPieces (fun s piece => (put piece).run s) pieces s).2 := by
  induction pieces generalizing s with
  | nil => exact refl_of Writing.Confined s
  | cons piece rest ih =>
    have hput := confined_put piece s
    unfold Leaves outcome at hput
    rw [Emission.deliverPieces]
    rcases hrun : (put piece).run s with ⟨e | ⟨⟩, t⟩ <;> rw [hrun] at hput
    · exact hput
    · exact trans_of Writing.Confined hput (ih t)

/-- **A stream stays within the set that it is written to**, whatever it is made of. -/
theorem confined_receive (e : Emission α) (s : Writing) :
    Leaves Writing.Confined (receive e) s := by
  have hpieces := confined_deliverPieces e.pieces s
  show s.Confined (e.deliver (fun s piece => (put piece).run s) s).2
  unfold Emission.deliver
  rcases hrun : Emission.deliverPieces (fun s piece => (put piece).run s) e.pieces s with
    ⟨e' | ⟨⟩, t⟩ <;> rwa [hrun] at hpieces

end BlockWriter

theorem BlockSet.confined_receive {α : Type} (set : BlockSet) (e : Emission α) (d : Device) :
    Leaves (Device.Confined set.HasByte) (set.receive e) d := by
  have hrun : Leaves Writing.Confined (do
      let _ ← BlockWriter.mapError .patch (BlockWriter.receive e)
      BlockWriter.finish) ⟨BlockWriter.new set false, d⟩ :=
    Leaves.bind (BlockWriter.confined_mapError (BlockWriter.confined_receive e _))
      fun _ t _ _ => BlockWriter.confined_finish t
  exact hrun.device.mono fun i hi => hi.2

/-! ## New data -/

namespace Feed

/-- What a writer that is being filled did to its device. -/
def Confined (s s' : Feeding) : Prop := s.writing.Confined s'.writing

instance : IsPreorder Feeding Confined where
  refl s := refl_of Writing.Confined s.writing
  trans _ _ _ := trans_of Writing.Confined

variable {ε ε' α : Type}

theorem confined_writerError {f : ε → ε'} {x : WritingM ε α} {s : Feeding}
    (h : Leaves Writing.Confined x s.writing) : Leaves Confined (writerError f x) s :=
  BlockWriter.confined_mapError h

/-- A change of the feed leaves the writer as it is. -/
theorem confined_modify (g : Feeding → Feed) (s : Feeding) :
    Leaves Confined (modify fun s => { s with feed := g s } : FeedingM ε PUnit) s :=
  Leaves.modify (refl_of Writing.Confined s.writing)

theorem confined_writeBuffer (s : Feeding) : Leaves Confined writeBuffer s := by
  refine Leaves.get_bind (Leaves.ite (fun _ => ?_) fun _ => Leaves.pure _)
  exact Leaves.bind (confined_writerError (BlockWriter.confined_write _ s.writing))
    fun n t _ _ => confined_modify _ t

theorem confined_settle (s : Feeding) : Leaves Confined settle s := by
  have hdone : ∀ t, Leaves Confined
      (do return (← get).writing.writer.isDone : FeedingM FeedError Bool) t :=
    fun t => Leaves.get_bind (Leaves.pure _)
  exact Leaves.get_bind <| Leaves.ite
    (fun _ => Leaves.bind (confined_writeBuffer s) fun _ t _ _ => hdone t) fun _ => hdone s

theorem confined_starve (s : Feeding) : Leaves Confined (starve : FeedingM FeedError α) s :=
  Leaves.get_bind (Leaves.throw _)

theorem confined_exhaust (s : Feeding) : Leaves Confined exhaust s :=
  Leaves.bind (confined_modify _ s) fun _ t _ _ => confined_starve t

/-- Before every read, what is left of the one before is written. -/
theorem confined_round {next : FeedingM FeedError Nat} (hnext : ∀ s, Leaves Confined next s)
    (s : Feeding) : Leaves Confined (do
      if ← settle then
        writerError .block BlockWriter.finish
      else if (← get).feed.exhausted then
        starve
      else
        next) s := by
  refine Leaves.bind (confined_settle s) fun done t _ _ => ?_
  cases done with
  | true => exact confined_writerError (BlockWriter.confined_finish t.writing)
  | false => exact Leaves.get_bind (Leaves.ite (fun _ => confined_starve t) fun _ => hnext t)

theorem confined_fillFrom (pulls : List Pull) (s : Feeding) :
    Leaves Confined (fillFrom pulls) s := by
  induction pulls generalizing s with
  | nil =>
    refine confined_round (fun t => Leaves.get_bind ?_) s
    split
    · exact Leaves.throw _
    · exact confined_exhaust t
  | cons pull rest ih =>
    refine confined_round (fun t => Leaves.bind (confined_modify _ t) fun _ t' _ _ => ?_) s
    cases pull with
    | failed error => exact Leaves.throw _
    | interrupted => exact ih t'
    | bytes data =>
      exact Leaves.ite (fun _ => confined_exhaust t') fun _ =>
        Leaves.bind (confined_modify _ t') fun _ t'' _ _ => ih t''

/-- **New data stays within the set that it is written to.** -/
theorem confined_fill (s : Feeding) : Leaves Confined fill s :=
  Leaves.get_bind (confined_fillFrom _ s)

end Feed

end BlockUpdate
