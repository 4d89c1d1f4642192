import BlockUpdate.Proofs.Plan

/-!
# Filling a set from a stream

A stream arrives in pieces whose bounds have nothing to do with the ranges of the set that it
fills. What holds between any two pieces is a fact about the writer's position: everything before
it was written, and nothing outside the set.

- `BlockWriter.Position`: that fact, for the writes so far.
- `Position.advance`, **`Position.complete`**: one write moves the position on, and a writer that
  is done has covered its set.
- **`Feed.planned_fill`**: what the new data of a command writes, and where it leaves the feed,
  depends on the feed alone.
- **`BlockSet.planned_receive`**: a patch that is applied in full covers its set.
-/

namespace BlockUpdate

/-- Whether the writes are within a set and leave out nothing of it. -/
def Write.Fill (set : BlockSet) (ws : List Write) : Prop :=
  ∀ i, Write.Covered ws i ↔ set.HasByte i

namespace BlockWriter

/-- Whether a position lies in what is left of some ranges, the first of which was begun. -/
def Remains : List BlockRange → Nat → Nat → Prop
  | [], _, _ => False
  | r :: rest, offset, i =>
    (r.byteStart + offset ≤ i ∧ i < r.byteStart + r.byteLength) ∨ InRanges rest i

@[simp] theorem remains_zero (ranges : List BlockRange) (i : Nat) :
    Remains ranges 0 i ↔ InRanges ranges i := by
  cases ranges with
  | nil => simp [Remains]
  | cons r rest => rw [Remains, inRanges_cons, Nat.add_zero]

/-- Where a writer stands after some writes: they are within its set, and what they leave out is
behind its position. -/
structure Position (set : BlockSet) (w : BlockWriter) (ws : List Write) : Prop where
  set_eq : w.set = set
  live : w.dryRun = false
  room : ∀ r rest, set.ranges.drop w.rangeIndex = r :: rest → w.rangeOffset < r.byteLength
  count : w.written + rangesLength (set.ranges.drop w.rangeIndex) =
    rangesLength set.ranges + w.rangeOffset
  inside : ∀ i, Write.Covered ws i → set.HasByte i
  covered : ∀ i, set.HasByte i →
    Write.Covered ws i ∨ Remains (set.ranges.drop w.rangeIndex) w.rangeOffset i

namespace Position

variable {set : BlockSet} {w : BlockWriter} {ws ws' : List Write}

/-- A writer starts before its set. -/
theorem new (hset : set.Sound) : Position set (BlockWriter.new set false) [] where
  set_eq := rfl
  live := rfl
  room r rest h := by
    have hr : r ∈ set.ranges := by
      rw [show set.ranges = r :: rest from h]
      exact List.mem_cons_self
    show 0 < r.byteLength
    exact BlockRange.byteLength_pos (hset.nonempty r hr)
  count := by
    show 0 + rangesLength set.ranges = rangesLength set.ranges + 0
    omega
  inside i h := absurd h (Write.not_covered_nil i)
  covered i h := by
    exact .inr ((remains_zero set.ranges i).mpr h)

/-- **One write moves the position on.** -/
theorem advance (h : Position set w ws) {r : BlockRange} {rest : List BlockRange}
    (hranges : set.ranges.drop w.rangeIndex = r :: rest) {n : Nat}
    (hn : w.rangeOffset + n ≤ r.byteLength)
    (hrest : ∀ s ∈ rest, 0 < s.count)
    (hws : ∀ i, Write.Covered ws' i ↔
      r.byteStart + w.rangeOffset ≤ i ∧ i < r.byteStart + w.rangeOffset + n) :
    Position set (w.advance n r.byteLength) (ws ++ ws') := by
  have hr : r ∈ set.ranges := List.mem_of_mem_drop (hranges ▸ List.mem_cons_self)
  have hcount := h.count
  rw [hranges, rangesLength_cons] at hcount
  have hinside : ∀ i, Write.Covered (ws ++ ws') i → set.HasByte i := by
    intro i hi
    rcases (Write.covered_append ws ws' i).mp hi with hi | hi
    · exact h.inside i hi
    · have := (hws i).mp hi
      exact ⟨r, hr, by omega, by omega⟩
  have hcovered : ∀ i, set.HasByte i → Write.Covered (ws ++ ws') i ∨
      (r.byteStart + (w.rangeOffset + n) ≤ i ∧ i < r.byteStart + r.byteLength) ∨
      InRanges rest i := by
    intro i hi
    rw [Write.covered_append, hws]
    rcases h.covered i hi with hc | hc
    · exact .inl (.inl hc)
    · rw [hranges] at hc
      rcases hc with hc | hc
      · by_cases hlt : i < r.byteStart + w.rangeOffset + n
        · exact .inl (.inr ⟨hc.1, hlt⟩)
        · exact .inr (.inl ⟨by omega, hc.2⟩)
      · exact .inr (.inr hc)
  by_cases hfull : w.rangeOffset + n = r.byteLength
  · have hnext : set.ranges.drop (w.rangeIndex + 1) = rest := by
      rw [← List.drop_drop, hranges]
      rfl
    rw [BlockWriter.advance, if_pos hfull]
    refine ⟨h.set_eq, h.live, fun s rest' hs => ?_, ?_, hinside, fun i hi => ?_⟩
    · have hs' : s ∈ rest := by
        rw [← hnext, hs]
        exact List.mem_cons_self
      show 0 < s.byteLength
      exact BlockRange.byteLength_pos (hrest s hs')
    · show w.written + n + rangesLength (set.ranges.drop (w.rangeIndex + 1)) = _ + 0
      rw [hnext]
      omega
    · show Write.Covered _ i ∨ Remains (set.ranges.drop (w.rangeIndex + 1)) 0 i
      rw [hnext, remains_zero]
      refine (hcovered i hi).imp_right fun hc => ?_
      exact hc.resolve_left fun hc => by omega
  · rw [BlockWriter.advance, if_neg hfull]
    refine ⟨h.set_eq, h.live, fun s rest' hs => ?_, ?_, hinside, fun i hi => ?_⟩
    · obtain ⟨rfl, -⟩ := List.cons.inj (hranges.symm.trans hs)
      show w.rangeOffset + n < r.byteLength
      omega
    · show w.written + n + rangesLength (set.ranges.drop w.rangeIndex) = _ + (w.rangeOffset + n)
      rw [hranges, rangesLength_cons]
      omega
    · show Write.Covered _ i ∨ Remains (set.ranges.drop w.rangeIndex) (w.rangeOffset + n) i
      rw [hranges]
      exact hcovered i hi

/-- **A writer that is done has covered its set.** -/
theorem complete (h : Position set w ws) (hset : set.Sound) (hdone : w.isDone = true) :
    Write.Fill set ws := by
  have hwritten : w.written = rangesLength set.ranges := by
    have : w.written = w.set.byteLength := by simpa [isDone, expected] using hdone
    rw [this, h.set_eq, hset.byteLength_eq]
  have hcount := h.count
  refine fun i => ⟨h.inside i, fun hi => (h.covered i hi).resolve_right ?_⟩
  cases hranges : set.ranges.drop w.rangeIndex with
  | nil => exact id
  | cons r rest =>
    have hroom := h.room r rest hranges
    rw [hranges, rangesLength_cons] at hcount
    omega

end Position

/-! ## Pieces -/

/-- A device computation is run on the device of a writer. -/
theorem planned_onDevice {D : Option Discards} {ε α : Type} {x : DeviceM ε α} {w : BlockWriter}
    {Q : Except ε α → List Write → Prop} (h : PlannedWrites D x Q) :
    Planned D Writing.mk (onDevice x) w fun r w' ws => w' = w ∧ Q r ws :=
  Planned.lift h (g := fun _ => w) (φ := id) (u := fun d => ⟨w, d⟩) (fun _ => rfl)
    (fun e => ⟨e, rfl⟩) (fun _ _ => rfl) fun _ _ _ hq => ⟨rfl, hq⟩

theorem planned_mapError {D : Option Discards} {ε ε' α : Type} {f : ε → ε'} {x : WritingM ε α}
    {w : BlockWriter} {Q : Except ε α → BlockWriter → List Write → Prop}
    {R : Except ε' α → BlockWriter → List Write → Prop} (h : Planned D Writing.mk x w Q)
    (hR : ∀ r w' ws, Q r w' ws → R (r.mapError f) w' ws) :
    Planned D Writing.mk (mapError f x) w R :=
  Planned.lift h (g := id) (u := id) (fun d => outcome_writerMapError f x ⟨w, d⟩)
    (fun e => ⟨f e, rfl⟩) (fun _ _ => rfl) hR

section Pieces

variable {D : Option Discards} {set : BlockSet} (hset : set.Sound)
include hset

/-- A piece that is written moves the position on, over as many ranges as it needs. -/
theorem planned_writeRanges (data : Bytes) (ranges : List BlockRange) (consumed : Nat)
    {w : BlockWriter} {ws : List Write} (h : Position set w ws)
    (hranges : set.ranges.drop w.rangeIndex = ranges) :
    Planned D Writing.mk (writeRanges data ranges consumed) w fun r w' ws' =>
      (∃ n, r = .ok n) → Position set w' (ws ++ ws') := by
  induction ranges generalizing consumed w ws with
  | nil => exact Planned.pure fun _ => by rwa [List.append_nil]
  | cons r rest ih =>
    by_cases hend : data.size ≤ consumed
    · have hstop : writeRanges data (r :: rest) consumed = pure consumed := if_pos hend
      rw [hstop]
      exact Planned.pure fun _ => by rwa [List.append_nil]
    have hroom := h.room r rest hranges
    have hrest : ∀ s ∈ rest, 0 < s.count := fun s hs =>
      hset.nonempty s (List.mem_of_mem_drop (hranges ▸ List.mem_cons_of_mem r hs))
    -- what this range takes of the piece
    let room := r.byteLength - w.rangeOffset
    let n := min room (data.size - consumed)
    have hn : n ≤ room ∧ n ≤ data.size - consumed := ⟨Nat.min_le_left .., Nat.min_le_right ..⟩
    have hsize : (data.extract consumed (consumed + n)).size = n := by
      rw [ByteArray.size_extract]
      omega
    have hstep : writeRanges data (r :: rest) consumed = (do
        let w := (← get).writer
        let room := r.byteLength - w.rangeOffset
        let n := min room (data.size - consumed)
        if !w.dryRun then
          onDevice (DeviceM.write (r.byteStart + w.rangeOffset)
            (data.extract consumed (consumed + n)))
        modify fun s => { s with writer := s.writer.advance n r.byteLength }
        if n = room then writeRanges data rest (consumed + n) else return consumed + n) :=
      if_neg hend
    rw [hstep]
    refine Planned.get_bind (y := onDevice (DeviceM.write (r.byteStart + w.rangeOffset)
        (data.extract consumed (consumed + n))) >>= fun _ =>
      modify (fun s => { s with writer := s.writer.advance n r.byteLength }) >>= fun _ =>
      if n = room then writeRanges data rest (consumed + n) else return consumed + n) ?_ ?_
    · refine Planned.bind (planned_onDevice (DeviceM.planned_write _ _)) ?_ ?_
      · rintro e w' ws' -
        exact fun ⟨_, h⟩ => by cases h
      · rintro ⟨⟩ w' ws' ⟨rfl, hin, hcover⟩
        have hws : ∀ i, Write.Covered ws' i ↔
            r.byteStart + w'.rangeOffset ≤ i ∧ i < r.byteStart + w'.rangeOffset + n := by
          intro i
          rw [← hsize]
          exact ⟨hin i, hcover rfl i⟩
        have hnext := h.advance hranges (n := n) (by omega) hrest hws
        refine Planned.modify_bind (l := w'.advance n r.byteLength) ?_ fun d => rfl
        by_cases hfull : n = room
        · rw [if_pos hfull]
          have hdrop : set.ranges.drop (w'.advance n r.byteLength).rangeIndex = rest := by
            rw [advance, if_pos (by omega)]
            show set.ranges.drop (w'.rangeIndex + 1) = rest
            rw [← List.drop_drop, hranges]
            rfl
          exact (ih _ hnext hdrop).imp fun r' w'' ws'' hpos hok => by
            rw [← List.append_assoc]
            exact hpos hok
        · rw [if_neg hfull]
          exact Planned.pure fun _ => by rwa [List.append_nil]
    · intro d _
      show (if (!w.dryRun) = true then _ else _) = _
      rw [h.live]
      rfl

/-- A piece, as far as there is room. -/
theorem planned_write (data : Bytes) {w : BlockWriter} {ws : List Write}
    (h : Position set w ws) :
    Planned D Writing.mk (write data) w fun r w' ws' =>
      (∃ n, r = .ok n) → Position set w' (ws ++ ws') :=
  Planned.get_bind (planned_writeRanges hset data _ 0 h rfl) fun _ _ => by
    show writeRanges data (w.set.ranges.drop w.rangeIndex) 0 = _
    rw [h.set_eq]

/-- A piece that is taken whole. -/
theorem planned_put (data : Bytes) {w : BlockWriter} {ws : List Write} (h : Position set w ws) :
    Planned D Writing.mk (put data) w fun r w' ws' => r = .ok () → Position set w' (ws ++ ws') := by
  by_cases hfits : w.remaining < data.size
  · refine Planned.get_bind (y := throw (.outOfRange (.targetFull (data.size - w.remaining)))) ?_
      fun d _ => ?_
    · exact Planned.throw fun h => by cases h
    · show (if w.remaining < data.size then _ else _) = _
      rw [if_pos hfits]
      rfl
  · refine Planned.get_bind (y := mapError .os (write data) >>= fun _ => pure ()) ?_ fun d _ => ?_
    · refine Planned.bind (planned_mapError (planned_write hset data h)
        (R := fun r w' ws' => (∃ n, r = .ok n) → Position set w' (ws ++ ws')) ?_) ?_ ?_
      · exact fun r w' ws' hpos ⟨n, hn⟩ => hpos ⟨n, mapError_eq_ok.mp hn⟩
      · exact fun e w' ws' _ h => by cases h
      · exact fun n w' ws' hpos => Planned.pure fun _ => by
          rw [List.append_nil]
          exact hpos ⟨n, rfl⟩
    · show (if w.remaining < data.size then _ else _) = _
      rw [if_neg hfits]

/-- Pieces that are taken one after the other. -/
theorem planned_deliverPieces (pieces : List Bytes) {w : BlockWriter} {ws : List Write}
    (h : Position set w ws) :
    Planned D Writing.mk
      (ExceptT.mk (Emission.deliverPieces (fun s piece => outcome (put piece) s) pieces)) w
      fun r w' ws' => r = .ok () → Position set w' (ws ++ ws') := by
  induction pieces generalizing w ws with
  | nil => exact Planned.quiet (fun _ => rfl) fun _ => by rwa [List.append_nil]
  | cons piece rest ih =>
    have hstep : Planned D Writing.mk (put piece >>= fun _ => ExceptT.mk
        (Emission.deliverPieces (fun s piece => outcome (put piece) s) rest)) w
        fun r w' ws' => r = .ok () → Position set w' (ws ++ ws') := by
      refine Planned.bind (planned_put hset piece h) ?_ ?_
      · exact fun e w' ws' _ h => by cases h
      · exact fun _ w' ws' hpos => (ih (hpos rfl)).imp fun r w'' ws'' hpos' hok => by
          rw [← List.append_assoc]
          exact hpos' hok
    refine hstep.of_outcome fun d _ => ?_
    rw [outcome_bind, outcome_mk, Emission.deliverPieces]
    rcases outcome (put piece) ⟨w, d⟩ with ⟨_ | _, _⟩ <;> rfl

/-- What an emission hands over is taken as far as its pieces go. -/
theorem planned_receive {α : Type} (e : Emission α) {w : BlockWriter} {ws : List Write}
    (h : Position set w ws) :
    Planned D Writing.mk (receive e) w fun r w' ws' =>
      (∃ a, r = .ok a) → Position set w' (ws ++ ws') := by
  have hstep : Planned D Writing.mk (ExceptT.mk
      (Emission.deliverPieces (fun s piece => outcome (put piece) s) e.pieces) >>= fun _ =>
      ExceptT.mk fun s => (e.outcome, s)) w
      fun r w' ws' => (∃ a, r = .ok a) → Position set w' (ws ++ ws') := by
    refine Planned.bind (planned_deliverPieces hset e.pieces h) ?_ ?_
    · exact fun e w' ws' _ ⟨_, h⟩ => by cases h
    · exact fun _ w' ws' hpos => Planned.quiet (fun _ => rfl) fun _ => by
        rw [List.append_nil]
        exact hpos rfl
  refine hstep.of_outcome fun d _ => ?_
  have hdeliver : outcome (receive e) ⟨w, d⟩ =
      Emission.deliver (fun s piece => outcome (put piece) s) e ⟨w, d⟩ := rfl
  rw [hdeliver, Emission.deliver, outcome_bind, outcome_mk]
  rcases Emission.deliverPieces (fun s piece => outcome (put piece) s) e.pieces ⟨w, d⟩ with
    ⟨_ | _, _⟩ <;> rfl

/-- A writer that finishes was done. -/
theorem planned_finish {w : BlockWriter} {ws : List Write} (h : Position set w ws) :
    Planned D Writing.mk finish w fun r _ ws' => (∃ n, r = .ok n) → Write.Fill set (ws ++ ws') := by
  by_cases hdone : w.isDone = true
  · refine Planned.get_bind (y := mapError .os (onDevice DeviceM.sync) >>= fun _ =>
      pure w.written) ?_ fun d _ => ?_
    · refine Planned.bind (planned_mapError (planned_onDevice DeviceM.planned_sync)
        (R := fun r w' ws' => w' = w ∧ ws' = []) ?_) ?_ ?_
      · exact fun r w' ws' h => ⟨h.1, h.2.2⟩
      · exact fun e w' ws' _ ⟨_, h⟩ => by cases h
      · rintro a w' ws' ⟨-, rfl⟩
        exact Planned.pure fun _ => by simpa using h.complete hset hdone
    · show (if (!w.isDone) = true then _ else if (!w.dryRun) = true then _ else _) = _
      rw [hdone, h.live]
      rfl
  · refine Planned.get_bind (y := throw (.shortWrite w.written w.expected)) ?_ fun d _ => ?_
    · exact Planned.throw fun ⟨_, h⟩ => by cases h
    · show (if (!w.isDone) = true then _ else _) = _
      rw [Bool.eq_false_iff.mpr hdone]
      rfl

end Pieces

end BlockWriter

/-- **A patch that is applied in full covers its set**, and nothing outside it is written. -/
theorem BlockSet.planned_receive {D : Option Discards} {set : BlockSet} (hset : set.Sound)
    {α : Type} (e : Emission α) :
    PlannedWrites D (set.receive e) fun r ws => (∃ n, r = .ok n) → Write.Fill set ws := by
  have hrun : Planned D Writing.mk (BlockWriter.mapError BlockError.patch (BlockWriter.receive e) >>=
      fun _ => BlockWriter.finish) (BlockWriter.new set false)
      fun r _ ws => (∃ n, r = .ok n) → Write.Fill set ws := by
    refine Planned.bind (BlockWriter.planned_mapError
      (BlockWriter.planned_receive hset e (BlockWriter.Position.new hset))
      (R := fun r w' ws' => (∃ a, r = .ok a) → BlockWriter.Position set w' ws') ?_) ?_ ?_
    · exact fun r w' ws' hpos ⟨a, ha⟩ => hpos ⟨a, mapError_eq_ok.mp ha⟩
    · exact fun e w' ws' _ ⟨_, h⟩ => by cases h
    · exact fun a w' ws' hpos => BlockWriter.planned_finish hset (hpos ⟨a, rfl⟩)
  exact Planned.lift hrun (g := fun _ => ()) (φ := id) (u := Writing.device) (fun _ => rfl)
    (fun e => ⟨e, rfl⟩) (fun _ _ => rfl) fun _ _ _ h => h

/-! ## New data -/

namespace Feed

/-- A feed and the writer that it fills, apart from the device. -/
def feeding (k : Feed × BlockWriter) (d : Device) : Feeding := ⟨k.1, ⟨k.2, d⟩⟩

section Filling

variable {D : Option Discards} {set : BlockSet} (hset : set.Sound)
include hset

/-- What is in the buffer goes to the writer. -/
theorem planned_writeBuffer {k : Feed × BlockWriter} {ws : List Write}
    (h : BlockWriter.Position set k.2 ws) :
    Planned D feeding writeBuffer k fun r k' ws' =>
      r = .ok () → BlockWriter.Position set k'.2 (ws ++ ws') := by
  by_cases hempty : k.1.buffer.size = 0
  · refine Planned.get_bind (y := pure ()) (Planned.pure fun _ => by rwa [List.append_nil]) ?_
    exact fun d _ => if_neg (not_not_intro hempty)
  · refine Planned.get_bind (y := writerError (.block ∘ .os) (BlockWriter.write k.1.buffer) >>=
      fun n => modify fun s : Feeding =>
        { s with feed.buffer := s.feed.buffer.dropFirst n }) ?_ fun d _ => if_pos hempty
    have hwrite := Planned.lift (D := D) (n := feeding) (l := k)
      (y := writerError (.block ∘ .os) (BlockWriter.write k.1.buffer))
      (g := fun w => (k.1, w)) (φ := Except.mapError (FeedError.block ∘ .os))
      (u := fun s => ⟨k.1, s⟩)
      (R := fun r k' ws' => (∃ n, r = .ok n) → BlockWriter.Position set k'.2 (ws ++ ws'))
      (BlockWriter.planned_write hset k.1.buffer h)
      (fun d => by rw [writerError, outcome_onWriter, outcome_writerMapError]; rfl)
      (fun e => ⟨_, rfl⟩) (fun _ _ => rfl)
      (fun r w' ws' hpos ⟨n, hn⟩ => hpos ⟨n, mapError_eq_ok.mp hn⟩)
    refine Planned.bind hwrite (fun e k' ws' _ h => by cases h) fun n k' ws' hpos => ?_
    exact Planned.quiet (l := ({ k'.1 with buffer := k'.1.buffer.dropFirst n }, k'.2))
      (fun d => rfl) fun _ => by
        rw [List.append_nil]
        exact hpos ⟨n, rfl⟩

/-- What is left of earlier reads goes to the writer, which then may be full. -/
theorem planned_settle {k : Feed × BlockWriter} {ws : List Write}
    (h : BlockWriter.Position set k.2 ws) :
    Planned D feeding settle k fun r k' ws' =>
      (∃ b, r = .ok b) → BlockWriter.Position set k'.2 (ws ++ ws') := by
  have hend : ∀ {k' : Feed × BlockWriter} (ws' : List Write),
      BlockWriter.Position set k'.2 (ws ++ ws') →
      Planned D feeding (do return (← get).writing.writer.isDone : FeedingM FeedError Bool) k'
        fun r k'' ws'' =>
        (∃ b, r = .ok b) → BlockWriter.Position set k''.2 (ws ++ (ws' ++ ws'')) := by
    intro k' ws' hpos
    exact Planned.get_bind (y := pure k'.2.isDone)
      (Planned.pure fun _ => by rwa [List.append_nil]) fun _ _ => rfl
  by_cases hdone : k.2.isDone = true
  · refine Planned.get_bind (y := do return (← get).writing.writer.isDone)
      (hend [] (by rwa [List.append_nil])) fun d _ => ?_
    show (if (!k.2.isDone) = true then _ else _) = _
    rw [hdone]
    rfl
  · refine Planned.get_bind (y := writeBuffer >>= fun _ => do
      return (← get).writing.writer.isDone) ?_ fun d _ => ?_
    · refine Planned.bind (planned_writeBuffer hset h) ?_ ?_
      · exact fun e k' ws' _ ⟨_, h⟩ => by cases h
      · exact fun _ k' ws' hpos => hend ws' (hpos rfl)
    · show (if (!k.2.isDone) = true then _ else _) = _
      rw [Bool.eq_false_iff.mpr hdone]
      rfl

omit hset in
theorem planned_starve {α : Type} (k : Feed × BlockWriter) :
    Planned D feeding (starve : FeedingM FeedError α) k fun r _ _ => ¬ ∃ n, r = .ok n := by
  refine Planned.get_bind (y := throw (.starved k.2.written k.2.expected))
    (Planned.throw ?_) fun _ _ => rfl
  rintro ⟨_, h⟩
  cases h

omit hset in
theorem planned_exhaust (k : Feed × BlockWriter) :
    Planned D feeding exhaust k fun r _ _ => ¬ ∃ n, r = .ok n :=
  Planned.modify_bind (planned_starve ({ k.1 with exhausted := true }, k.2)) fun _ => rfl

/-- The writer finishes, at the end of a fill. -/
theorem planned_finishWriter {k : Feed × BlockWriter} {ws : List Write}
    (h : BlockWriter.Position set k.2 ws) :
    Planned D feeding (writerError FeedError.block BlockWriter.finish) k fun r _ ws' =>
      (∃ n, r = .ok n) → Write.Fill set (ws ++ ws') :=
  Planned.lift (g := fun w => (k.1, w)) (φ := Except.mapError FeedError.block)
    (u := fun s => ⟨k.1, s⟩) (BlockWriter.planned_finish hset h)
    (fun d => by rw [writerError, outcome_onWriter, outcome_writerMapError]; rfl)
    (fun e => ⟨_, rfl⟩) (fun _ _ => rfl)
    fun r w' ws' hfill ⟨n, hn⟩ => hfill ⟨n, mapError_eq_ok.mp hn⟩

/-- A round of a fill: it ends when the writer is full, and otherwise goes on with `next` unless
the data ended. -/
theorem planned_round {next : FeedingM FeedError Nat} {k : Feed × BlockWriter} {ws : List Write}
    (h : BlockWriter.Position set k.2 ws)
    (hnext : ∀ k' ws', BlockWriter.Position set k'.2 ws' → Planned D feeding next k' fun r _ ws'' =>
      (∃ n, r = .ok n) → Write.Fill set (ws' ++ ws'')) :
    Planned D feeding (do
        if ← settle then writerError FeedError.block BlockWriter.finish
        else if (← get).feed.exhausted then starve
        else next) k fun r _ ws' =>
      (∃ n, r = .ok n) → Write.Fill set (ws ++ ws') := by
  refine Planned.bind (planned_settle hset h) (fun e k' ws' _ ⟨_, h⟩ => by cases h) ?_
  intro done k' ws' hsettled
  have hpos := hsettled ⟨done, rfl⟩
  cases done with
  | true =>
    refine (planned_finishWriter hset hpos).imp fun r k'' ws'' hfill hok => ?_
    rw [← List.append_assoc]
    exact hfill hok
  | false =>
    refine Planned.get_bind (y := if k'.1.exhausted = true then starve else next) ?_ fun _ _ => rfl
    split
    · exact (planned_starve k').imp fun r _ _ hno hok => absurd hok hno
    · refine (hnext k' _ hpos).imp fun r k'' ws'' hfill hok => ?_
      rw [← List.append_assoc]
      exact hfill hok

/-- A fill from given reads to come covers the set if it succeeds. -/
theorem planned_fillFrom (pulls : List Pull) {k : Feed × BlockWriter} {ws : List Write}
    (h : BlockWriter.Position set k.2 ws) :
    Planned D feeding (fillFrom pulls) k fun r _ ws' =>
      (∃ n, r = .ok n) → Write.Fill set (ws ++ ws') := by
  induction pulls generalizing k ws with
  | nil =>
    refine planned_round hset h fun k' ws' _ => ?_
    cases hending : k'.1.source.ending with
    | some error =>
      refine Planned.get_bind (y := throw (.source error)) (Planned.throw ?_) fun d _ => ?_
      · rintro ⟨n, h⟩
        cases h
      · simp only [feeding, hending]
    | none =>
      refine Planned.get_bind (y := exhaust) ?_ fun d _ => ?_
      · exact (planned_exhaust k').imp fun r _ _ hno hok => absurd hok hno
      · simp only [feeding, hending]
  | cons pull rest ih =>
    refine planned_round hset h fun k' ws' hpos => ?_
    let k'' : Feed × BlockWriter := ({ k'.1 with source.pulls := rest }, k'.2)
    refine Planned.modify_bind (l := k'') ?_ fun _ => rfl
    cases pull with
    | failed error =>
      refine Planned.throw ?_
      rintro ⟨n, h⟩
      cases h
    | interrupted => exact ih (k := k'') hpos
    | bytes data =>
      show Planned D feeding (if data.size = 0 then exhaust else _) k'' _
      split
      · exact (planned_exhaust k'').imp fun r _ _ hno hok => absurd hok hno
      · exact Planned.modify_bind (ih (k := ({ k''.1 with
          buffer := data, consumed := k''.1.consumed + data.size }, k''.2)) hpos) fun _ => rfl

/-- **What new data writes, and where it leaves the feed, depends on the feed alone**, and a fill
that succeeds covers its set. -/
theorem planned_fill (feed : Feed) :
    Planned D feeding fill (feed, BlockWriter.new set false) fun r _ ws =>
      (∃ n, r = .ok n) → Write.Fill set ws :=
  Planned.get_bind (planned_fillFrom hset feed.source.pulls
    (k := (feed, BlockWriter.new set false)) (BlockWriter.Position.new hset)) fun _ _ => rfl

end Filling

end Feed

end BlockUpdate
