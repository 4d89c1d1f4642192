import BlockUpdate.Compiled.Feeds
import BlockUpdate.Proofs.AgreementBlocks
import BlockUpdate.Proofs.Confined

/-!
# Filling a set from new data, on words and with numbers

A writer that is filled from new data takes the size of its set again and again, to see whether it
is full. It is the same size each time, and nothing else that a fill computes can fail to fit. As
long as it fits, the writer is full when its ranges are, so that no bytes are left for ranges that
have no room for them.

- **`Compiled.agrees_fill`**: a fill on words is the one with numbers, or the size of the set does
  not fit.
- `Compiled.outcome_fill_of_le`: in a build that checks it then ends before anything is read or
  written.
-/

namespace BlockUpdate

open Decimal (limit64)

namespace Compiled

variable {α : Type}

/-! ## The writer on its way -/

variable {b : Build} {set : BlockSet} {s : Feeding}

/-- A writer that was on its way still is. -/
def Keeps (set : BlockSet) (s t : Feeding) : Prop :=
  Filling set s.writing.writer → Filling set t.writing.writer

instance : IsPreorder Feeding (Keeps set) where
  refl _ := id
  trans _ _ _ h h' := h' ∘ h

theorem keeps_writeBuffer (hset : set.Valid) (s : Feeding) :
    Leaves (Keeps set) Feed.writeBuffer s := by
  refine Leaves.get_bind (Leaves.ite (fun _ => ?_) fun _ => Leaves.pure _)
  refine Leaves.bind (fun h => ?_) fun n t _ _ => Leaves.modify id
  rw [Feed.writerError, outcome_onWriter, outcome_writerMapError]
  exact h.write hset s.feed.buffer

theorem keeps_settle (hset : set.Valid) (s : Feeding) : Leaves (Keeps set) Feed.settle s := by
  have hdone : ∀ t, Leaves (Keeps set)
      (do return (← get).writing.writer.isDone : FeedingM FeedError Bool) t :=
    fun t => Leaves.get_bind (Leaves.pure _)
  exact Leaves.get_bind <| Leaves.ite
    (fun _ => Leaves.bind (keeps_writeBuffer hset s) fun _ t _ _ => hdone t) fun _ => hdone s

/-! ## Agreement -/

theorem agrees_writeBuffer (hset : set.Valid) (hfits : set.byteLength < limit64)
    (h : Filling set s.writing.writer) :
    Agrees b (limit64 ≤ set.byteLength) (writeBuffer b) Feed.writeBuffer s := by
  refine Agrees.get_bind (Agrees.ite (fun _ => ?_) fun _ => Agrees.pure _ s)
  have hwrite : Agrees b (limit64 ≤ set.byteLength) (writePiece b s.feed.buffer) _ _ :=
    agrees_writePiece hset hfits h s.feed.buffer
  refine Agrees.bind (hwrite.onPart ?_) fun n t _ => Agrees.modify _ t
  rw [Feed.writerError, outcome_onWriter, outcome_writerMapError]

/-- **What is left in the buffer** found no room in the ranges of its writer, which is full then. -/
theorem done_of_writeBuffer (hset : set.Valid) (h : Filling set s.writing.writer) {t : Feeding}
    (hrun : outcome Feed.writeBuffer s = (.ok (), t)) (hleft : t.feed.buffer.size ≠ 0) :
    t.writing.writer.isDone = true := by
  rw [Feed.writeBuffer, outcome_get_bind] at hrun
  by_cases hempty : s.feed.buffer.size = 0
  · rw [if_neg (not_not_intro hempty)] at hrun
    cases hrun
    exact absurd hempty hleft
  rw [if_pos hempty, outcome_bind_eq_ok] at hrun
  obtain ⟨n, u, hwrite, hdrop⟩ := hrun
  cases hdrop
  have hsound : s.writing.writer.set.Sound := h.set_eq.symm ▸ hset.sound
  obtain ⟨w, hw, hattempts⟩ := BlockWriter.outcome_write h.counted hsound s.feed.buffer
  rw [Feed.writerError, outcome_onWriter, outcome_writerMapError, hattempts] at hwrite
  obtain ⟨hresult, rfl⟩ := Prod.mk.inj hwrite
  have hgiven := mapError_eq_ok.mp hresult
  rcases hended : (BlockWriter.attempts s.writing s.feed.buffer).2.1 with e | ⟨⟩ <;>
    rw [hended] at hgiven <;> cases hgiven
  -- the writer took less than there was, so it took all that it had room for
  have hn := BlockWriter.attempts_of_ok h.counted hsound hended
  have hle := h.counted.written_le hsound
  have hmore : (BlockWriter.attempts s.writing s.feed.buffer).1 < s.feed.buffer.size := by
    refine Nat.lt_of_not_le fun hge => hleft ?_
    exact (Bytes.size_dropFirst ..).trans (Nat.sub_eq_zero_of_le hge)
  have hwritten : w.written = w.expected := by
    rw [BlockWriter.expected, hw.set_eq, hw.written_eq, hn]
    rw [BlockWriter.remaining] at hn ⊢
    rw [BlockWriter.expected] at hn hle ⊢
    omega
  exact beq_iff_eq.mpr hwritten

theorem agrees_settle (hset : set.Valid) (h : Filling set s.writing.writer) :
    Agrees b (limit64 ≤ set.byteLength) (settle b) Feed.settle s := by
  have hdone : ∀ t : Feeding, Filling set t.writing.writer →
      (t.feed.buffer.size ≠ 0 → t.writing.writer.isDone = true) →
      Agrees b (limit64 ≤ set.byteLength)
        (do let done ← give (isDone b (← get).writing.writer)
            if !done && (← get).feed.buffer.size != 0 then
              throw .endless
            return done)
        (do return (← get).writing.writer.isDone : FeedingM FeedError Bool) t := by
    intro t ht hsettled
    refine Agrees.get_bind (Agrees.sized_bind (sized_isDone ht) id fun _ => ?_)
    have hleft : (!t.writing.writer.isDone && t.feed.buffer.size != 0) = false := by
      by_cases hsize : t.feed.buffer.size = 0
      · simp [hsize]
      · simp [hsettled hsize]
    refine .inl ?_
    rw [outcome_get_bind, hleft]
    rfl
  refine Agrees.get_bind (Agrees.sized_bind (sized_isDone h) id fun hfits => ?_)
  refine Agrees.ite (fun hnot => ?_) fun hfull => hdone s h fun _ => by simpa using hfull
  refine Agrees.bind (agrees_writeBuffer hset hfits h) fun _ t ht => hdone t ?_ ?_
  · have hkept := keeps_writeBuffer hset s h
    rwa [ht] at hkept
  · exact done_of_writeBuffer hset h ht

theorem agrees_starve (hset : set.Valid) (h : Filling set s.writing.writer) :
    Agrees b (limit64 ≤ set.byteLength) (starve b : CompiledM FeedError Feeding α) Feed.starve
      s := by
  refine Agrees.get_bind (Agrees.sized_bind (sized_expected h) id fun _ => ?_)
  refine Agrees.ok_bind (minus_of_le ?_) (Agrees.throw _ s)
  exact h.counted.written_le (h.set_eq.symm ▸ hset.sound)

theorem agrees_exhaust (hset : set.Valid) (h : Filling set s.writing.writer) :
    Agrees b (limit64 ≤ set.byteLength) (exhaust b) Feed.exhaust s :=
  (Agrees.modify _ s).bind fun _ t ht => by
    cases ht
    exact agrees_starve hset h

/-- **A round of a fill**: it ends when the writer is full, and otherwise goes on with `next` unless
the data ended. -/
theorem agrees_round {next : CompiledM FeedError Feeding Nat} {next' : FeedingM FeedError Nat}
    (hset : set.Valid) (h : Filling set s.writing.writer)
    (hnext : ∀ t : Feeding, Filling set t.writing.writer →
      Agrees b (limit64 ≤ set.byteLength) next next' t) :
    Agrees b (limit64 ≤ set.byteLength)
      (do if ← settle b then onWriter FeedError.block (finish b)
          else if (← get).feed.exhausted then starve b
          else next)
      (do if ← Feed.settle then Feed.writerError FeedError.block BlockWriter.finish
          else if (← get).feed.exhausted then Feed.starve
          else next') s := by
  refine Agrees.bind (agrees_settle hset h) fun done t ht => ?_
  have hkept : Filling set t.writing.writer := by
    have hkept := keeps_settle hset s h
    rwa [ht] at hkept
  refine Agrees.ite (fun _ => ?_) fun _ => ?_
  · refine (agrees_finish hkept).onPart ?_
    rw [Feed.writerError, outcome_onWriter, outcome_writerMapError]
  · exact Agrees.get_bind (Agrees.ite (fun _ => agrees_starve hset hkept) fun _ => hnext t hkept)

theorem agrees_fillFrom (hset : set.Valid) (pulls : List Pull) (h : Filling set s.writing.writer) :
    Agrees b (limit64 ≤ set.byteLength) (fillFrom b pulls) (Feed.fillFrom pulls) s := by
  induction pulls generalizing s with
  | nil =>
    refine agrees_round hset h fun t ht => Agrees.get_bind ?_
    cases t.feed.source.ending with
    | some error => exact Agrees.throw _ t
    | none => exact agrees_exhaust hset ht
  | cons pull rest ih =>
    refine agrees_round hset h fun t ht => (Agrees.modify _ t).bind fun _ u hu => ?_
    cases hu
    cases pull with
    | failed error => exact Agrees.throw _ _
    | interrupted => exact ih ht
    | bytes data =>
      refine Agrees.ite (fun _ => agrees_exhaust hset ht) fun _ => ?_
      refine (Agrees.modify _ _).bind fun _ u hu => ?_
      cases hu
      exact ih ht

/-- **A writer is filled from new data.** -/
theorem agrees_fill (hset : set.Valid) (h : Filling set s.writing.writer) :
    Agrees b (limit64 ≤ set.byteLength) (fill b) Feed.fill s :=
  Agrees.get_bind (agrees_fillFrom hset s.feed.source.pulls h)

/-- In a build that checks, a fill of a set whose size does not fit ends before anything is read or
written. -/
theorem outcome_fill_of_le (h : limit64 ≤ s.writing.writer.set.byteLength) :
    outcome (fill .checked) s = (.error .overflow, s) := by
  have hsettle : outcome (settle .checked) s = (.error .overflow, s) := by
    rw [settle, outcome_get_bind, isDone, byteLength, size_of_le h]
    rfl
  rw [fill, outcome_get_bind]
  cases s.feed.source.pulls with
  | nil => exact outcome_bind_of_error hsettle _
  | cons pull rest => exact outcome_bind_of_error hsettle _

end Compiled

end BlockUpdate
