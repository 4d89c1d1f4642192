import BlockUpdate.Proofs.AgreementFeeds
import BlockUpdate.Proofs.Descriptors

/-!
# New data across writers

New data is read in pieces whose bounds have nothing to do with those of the writers that are
handed over for it. Where the pieces end leaves no trace: a writer takes the bytes behind those
that the writers before it took, and it is starved exactly if there are too few of them.

- `NewData.data?`: the data that a source delivers, however its reads are split.
- `Feed.left?`: the part of it that no writer took yet.
- `Feed.handOver`, `Compiled.handOver`: writers that are filled one after the other, with numbers and
  on words. A command hands over one of them (`Feed.handOver_fillFromNewData`).
- `Took.of_counted`, **`Took.write`**: a writer takes what it has room for.
- **`Feed.fillFrom_fills`**: what a fill does, by induction on the reads to come.
- **`Feed.handOver_streamed`**: what every writer of a sequence gets.
- **`Feed.handOver_exact`**: the same on words, if the size of every writer's set fits one.
- **`Feed.handOver_quadrupled`**: a writer whose set is larger may be full before it got anything.

A read that fails is no matter of this file, and neither is a write that does.
-/

namespace BlockUpdate

/-! ## Sources -/

/-- The data that some reads deliver up to its end, if they reach it. What is behind an empty read
is never asked for. -/
def NewData.dataOf? (ending : Option OsError) : List Pull → Option Bytes
  | [] => if ending.isNone then some ByteArray.empty else none
  | .interrupted :: rest => dataOf? ending rest
  | .failed _ :: _ => none
  | .bytes piece :: rest =>
    if piece.size = 0 then some ByteArray.empty else (dataOf? ending rest).map (piece ++ ·)

/-- The data of a source, if no read of it fails. -/
def NewData.data? (source : NewData) : Option Bytes := dataOf? source.ending source.pulls

/-- The data that a feed still has for its writers, if no read of it fails. -/
def Feed.left? (feed : Feed) : Option Bytes :=
  if feed.exhausted then some feed.buffer else feed.source.data?.map (feed.buffer ++ ·)

@[simp] theorem Feed.left?_start (source : NewData) : (Feed.start source).left? = source.data? := by
  show source.data?.map (ByteArray.empty ++ ·) = source.data?
  simp

/-- A device whose writes and syncs succeed. -/
structure Device.Reliable (d : Device) : Prop where
  writes : ∀ n, d.faults.write n = none
  syncs : ∀ n, d.faults.sync n = none

open BlockSet (placing)

/-- The sync of a writer succeeds if that of its device does. -/
theorem BlockWriter.outcome_sync {s : Writing} (hsyncs : ∀ n, s.device.faults.sync n = none) :
    outcome (mapError BlockError.os (onDevice DeviceM.sync)) s = (.ok (), s) := by
  rw [outcome_writerMapError, outcome_writerOnDevice]
  show ((s.device.sync).mapError BlockError.os, s) = _
  rw [Device.sync, hsyncs]
  rfl

/-! ## One writer -/

/-- A writer to be handed over: what it fills, and whether it only counts. -/
structure HandOver where
  set : BlockSet
  dryRun : Bool := false

namespace HandOver

/-- The size of what a writer takes. -/
def size (t : HandOver) : Nat := t.set.byteLength

/-- Everything that a writer writes is at valid offsets. -/
def Addressable (t : HandOver) : Prop :=
  t.dryRun = false → ∀ r ∈ t.set.ranges, r.byteStart + r.byteLength ≤ Device.offsetLimit

/-- An image on which a writer laid data. -/
def filled (t : HandOver) (image data : Bytes) : Bytes :=
  if t.dryRun then image else image.overwrite (placing t.set.ranges 0 data)

/-- What a writer reports, for the size of the data that there is for it. -/
def answer (t : HandOver) (available : Nat) : Except FeedError Nat :=
  if t.size ≤ available then .ok t.size else .error (.starved available t.size)

/-- A writer that took some data. -/
structure Took (t : HandOver) (image : Bytes) (s : Writing) (taken : Bytes) : Prop where
  set_eq : s.writer.set = t.set
  dryRun_eq : s.writer.dryRun = t.dryRun
  written : s.writer.written = taken.size
  fits : taken.size ≤ t.size
  count : taken.size + rangesLength (t.set.ranges.drop s.writer.rangeIndex) =
    t.size + s.writer.rangeOffset
  room : ∀ r rest, t.set.ranges.drop s.writer.rangeIndex = r :: rest →
    s.writer.rangeOffset < r.byteLength
  reliable : s.device.Reliable
  /-- Data that goes on from here goes on from what was taken. -/
  image_eq : ∀ data, (if t.dryRun then s.device.image else s.device.image.overwrite
      (placing (t.set.ranges.drop s.writer.rangeIndex) s.writer.rangeOffset data)) =
    t.filled image (taken ++ data)

namespace Took

variable {t : HandOver} {image taken data : Bytes} {s : Writing}

/-- The image that a writer leaves. -/
theorem image_filled (h : Took t image s taken) : s.device.image = t.filled image taken := by
  have hempty := h.image_eq ByteArray.empty
  rwa [BlockSet.overwrite_placing_empty, ite_self, ByteArray.append_empty] at hempty

theorem isDone_iff (h : Took t image s taken) :
    s.writer.isDone = true ↔ taken.size = t.size := by
  rw [BlockWriter.isDone, BlockWriter.expected, h.set_eq, h.written, beq_iff_eq]
  rfl

/-- A writer that takes data counts it. -/
theorem counted (h : Took t image s taken) (hset : t.set.Sound) : s.writer.Counted where
  room r hr := by
    rw [h.set_eq] at hr
    obtain ⟨rest, hranges⟩ := List.head?_eq_some_iff.mp hr
    exact h.room r rest hranges
  atEnd hranges := by
    have hcount := h.count
    have hfits := h.fits
    rw [h.set_eq] at hranges
    rw [hranges, rangesLength_nil] at hcount
    omega
  written_eq := by
    have hcount := h.count
    rw [size, ← hset.rangesLength_take_add_drop s.writer.rangeIndex] at hcount
    rw [h.written, h.set_eq]
    omega

/-- A writer that counts what is on the device took it. -/
theorem of_counted {w : BlockWriter} {d : Device} (h : w.Counted) (hset : t.set.Sound)
    (hset_eq : w.set = t.set) (hdry : w.dryRun = t.dryRun) (hwritten : w.written = taken.size)
    (hd : d.Reliable) (himage : d.image = t.filled image taken) : Took t image ⟨w, d⟩ taken := by
  have hle := h.written_le (hset_eq.symm ▸ hset)
  have hposition := h.written_eq
  have hroom := h.room
  rw [BlockWriter.expected, hset_eq, hwritten] at hle
  rw [hset_eq, hwritten] at hposition
  rw [hset_eq] at hroom
  refine ⟨hset_eq, hdry, hwritten, hle, ?_, fun r rest hranges => ?_, hd, fun data => ?_⟩
  · rw [size, ← hset.rangesLength_take_add_drop w.rangeIndex]
    show taken.size + rangesLength (t.set.ranges.drop w.rangeIndex) = _ + w.rangeOffset
    omega
  · exact hroom r (by rw [hranges]; rfl)
  · show (if t.dryRun then d.image else d.image.overwrite
      (placing (t.set.ranges.drop w.rangeIndex) w.rangeOffset data)) = _
    rw [himage, filled, filled]
    by_cases hdry : t.dryRun = true
    · simp only [hdry, if_true]
    · simp only [hdry, if_false, Bool.false_eq_true]
      exact (BlockSet.overwrite_placing_append hposition hroom).symm

/-- A new writer took nothing. -/
theorem new (hset : t.set.Sound) {d : Device} (hd : d.Reliable) :
    Took t d.image ⟨BlockWriter.new t.set t.dryRun, d⟩ ByteArray.empty :=
  of_counted (BlockWriter.Counted.new hset t.dryRun) hset rfl rfl rfl hd
    (by rw [filled, BlockSet.overwrite_placing_empty, ite_self])

theorem remaining_eq (h : Took t image s taken) :
    s.writer.remaining = t.size - taken.size := by
  rw [BlockWriter.remaining, BlockWriter.expected, h.set_eq, h.written]
  rfl

/-- Whatever is attempted succeeds. -/
theorem attempts (h : Took t image s taken) (hlimit : t.Addressable) (piece : Bytes) :
    ∃ d, (BlockWriter.attempts s piece).2 = (.ok (), d) ∧ d.Reliable ∧
      d.image = t.filled image (taken ++ piece) := by
  rw [BlockWriter.attempts, h.dryRun_eq, h.set_eq, ← h.image_eq]
  cases hdry : t.dryRun with
  | true =>
    rw [Device.attemptAll_dryRun]
    exact ⟨s.device, rfl, h.reliable, rfl⟩
  | false =>
    obtain ⟨d, hrun, himage, hfaults⟩ := Device.attemptAll_live h.reliable.writes
      fun w hw => BlockSet.offset_lt_of_mem_placing
        (fun r hr => hlimit hdry r (List.mem_of_mem_drop hr)) hw
    rw [hrun]
    exact ⟨d, rfl, ⟨hfaults.symm ▸ h.reliable.writes, hfaults.symm ▸ h.reliable.syncs⟩, himage⟩

/-- **A writer takes what it has room for.** -/
theorem write (hset : t.set.Sound) (hlimit : t.Addressable) (h : Took t image s taken)
    (data : Bytes) :
    ∃ s', outcome (BlockWriter.write data) s = (.ok (min data.size (t.size - taken.size)), s') ∧
      Took t image s' (taken ++ data.takeFirst (min data.size (t.size - taken.size))) := by
  have hcounted := h.counted hset
  have hsound : s.writer.set.Sound := h.set_eq.symm ▸ hset
  obtain ⟨n, hn⟩ : ∃ n, n = min data.size (t.size - taken.size) := ⟨_, rfl⟩
  have hsame : BlockWriter.attempts s (data.takeFirst n) = BlockWriter.attempts s data := by
    rw [hn, Bytes.takeFirst_min, ← h.remaining_eq, BlockWriter.attempts_takeFirst hcounted hsound]
  obtain ⟨d, hattempts, hd, himage⟩ := h.attempts hlimit (data.takeFirst n)
  rw [hsame] at hattempts
  obtain ⟨w, hw, hrun⟩ := BlockWriter.outcome_write hcounted hsound data
  have hcount := BlockWriter.attempts_of_ok hcounted hsound (by rw [hattempts])
  rw [h.remaining_eq, ← hn] at hcount
  rw [hcount, hattempts] at hrun
  rw [hcount] at hw
  rw [← hn]
  refine ⟨⟨w, d⟩, hrun, of_counted hw.counted hset (hw.set_eq.trans h.set_eq)
    (hw.dryRun_eq.trans h.dryRun_eq) ?_ hd himage⟩
  rw [hw.written_eq, h.written, ByteArray.size_append, Bytes.size_takeFirst]
  omega

/-- A writer that took all of its data finishes. -/
theorem finish (h : Took t image s taken) (hfull : taken.size = t.size) :
    outcome BlockWriter.finish s = (.ok t.size, s) := by
  have hsync := BlockWriter.outcome_sync h.reliable.syncs
  rw [BlockWriter.finish, outcome_get_bind]
  show outcome (if (!s.writer.isDone) = true then _ else
    if (!s.writer.dryRun) = true then _ else _) s = _
  rw [h.isDone_iff.mpr hfull]
  cases hdry : s.writer.dryRun with
  | true =>
    show outcome (pure s.writer.written) s = _
    rw [h.written, hfull]
    rfl
  | false =>
    show outcome (BlockWriter.mapError BlockError.os (BlockWriter.onDevice DeviceM.sync) >>= fun _ =>
      pure s.writer.written) s = _
    rw [outcome_bind_of_ok hsync, h.written, hfull]
    rfl

end Took

end HandOver

/-! ## One fill -/

namespace Feed

open HandOver (Took)

/-- How a fill ends: the writer gets the first bytes of what is left, and the feed keeps the
rest. -/
def Fills (t : HandOver) (image taken left : Bytes) (x : FeedingM FeedError Nat) (s : Feeding) :
    Prop :=
  ∃ s', outcome x s = (t.answer (taken.size + left.size), s') ∧
    s'.feed.left? = some (left.dropFirst (t.size - taken.size)) ∧
    Took t image s'.writing (taken ++ left.takeFirst (t.size - taken.size))

variable {t : HandOver} {image taken left front rest : Bytes} {s : Writing} {feed : Feed}

/-- What the writer took before belongs to what was left before that. -/
theorem Fills.prepend {x : FeedingM FeedError Nat} {k : Feeding}
    (h : Fills t image (taken ++ front) rest x k) (hfront : front.size ≤ t.size - taken.size) :
    Fills t image taken (front ++ rest) x k := by
  obtain ⟨s', hrun, hleft, htook⟩ := h
  rw [ByteArray.size_append, Nat.sub_add_eq] at hleft htook
  rw [ByteArray.size_append, Nat.add_assoc, ← ByteArray.size_append] at hrun
  refine ⟨s', hrun, ?_, ?_⟩
  · rw [hleft, Bytes.dropFirst_append_of_le hfront]
  · rw [Bytes.takeFirst_append_of_le hfront, ← ByteArray.append_assoc]
    exact htook

/-- A feed that has no more data for its writer. -/
theorem starve_fills (h : Took t image s taken) (hmore : taken.size < t.size)
    (hleft : feed.left? = some ByteArray.empty) :
    Fills t image taken ByteArray.empty starve ⟨feed, s⟩ := by
  refine ⟨⟨feed, s⟩, ?_, ?_, ?_⟩
  · rw [starve, outcome_get_bind, ByteArray.size_empty, HandOver.answer, if_neg (by omega)]
    show (Except.error (FeedError.starved s.writer.written s.writer.set.byteLength), _) = _
    rw [h.written, h.set_eq]
    rfl
  · rw [hleft, Bytes.dropFirst_of_size_le (Nat.zero_le _)]
  · rwa [Bytes.takeFirst_of_size_le (Nat.zero_le _), ByteArray.append_empty]

theorem exhaust_fills (h : Took t image s taken) (hmore : taken.size < t.size)
    (hbuffer : feed.buffer = ByteArray.empty) :
    Fills t image taken ByteArray.empty exhaust ⟨feed, s⟩ := by
  have hleft : ({ feed with exhausted := true } : Feed).left? = some ByteArray.empty := by
    rw [left?, if_pos rfl, hbuffer]
  obtain ⟨s', hrun, hrest⟩ := starve_fills h hmore hleft
  refine ⟨s', ?_, hrest⟩
  rw [exhaust, outcome_bind_of_ok (outcome_modify _ _)]
  exact hrun

section Filling

variable (hset : t.set.Sound) (hlimit : t.Addressable)

include hset hlimit

/-- What is in the buffer goes to the writer, as far as there is room. -/
theorem writeBuffer_took (h : Took t image s taken) {n : Nat}
    (hn : n = min feed.buffer.size (t.size - taken.size)) :
    ∃ s', outcome writeBuffer ⟨feed, s⟩ =
        (.ok (), ⟨{ feed with buffer := feed.buffer.dropFirst n }, s'⟩) ∧
      Took t image s' (taken ++ feed.buffer.takeFirst n) := by
  by_cases hempty : feed.buffer.size = 0
  · obtain rfl : n = 0 := by omega
    refine ⟨s, ?_, by rwa [Bytes.takeFirst_zero, ByteArray.append_empty]⟩
    rw [writeBuffer, outcome_get_bind, if_neg (not_not_intro hempty), Bytes.dropFirst_zero]
    rfl
  · obtain ⟨s', hwrite, htook⟩ := h.write hset hlimit feed.buffer
    rw [← hn] at hwrite htook
    refine ⟨s', ?_, htook⟩
    rw [writeBuffer, outcome_get_bind, if_pos hempty,
      outcome_bind_of_ok (a := n) (t := ⟨feed, s'⟩) (by
        rw [writerError, outcome_onWriter, outcome_writerMapError, hwrite]
        rfl), outcome_modify]

/-- After what was left of earlier reads went to the writer, it may be full. -/
theorem settle_took (h : Took t image s taken) {n : Nat}
    (hn : n = min feed.buffer.size (t.size - taken.size)) :
    ∃ s', outcome settle ⟨feed, s⟩ =
        (.ok s'.writer.isDone, ⟨{ feed with buffer := feed.buffer.dropFirst n }, s'⟩) ∧
      Took t image s' (taken ++ feed.buffer.takeFirst n) := by
  rw [settle, outcome_get_bind]
  by_cases hdone : s.writer.isDone = true
  · have hfull := h.isDone_iff.mp hdone
    obtain rfl : n = 0 := by omega
    refine ⟨s, ?_, by rwa [Bytes.takeFirst_zero, ByteArray.append_empty]⟩
    show outcome (if (!s.writer.isDone) = true then _ else _) _ = _
    rw [hdone, Bytes.dropFirst_zero]
    exact congrArg (fun b => (Except.ok b, _)) hdone
  · obtain ⟨s', hwrite, htook⟩ := writeBuffer_took hset hlimit h hn
    refine ⟨s', ?_, htook⟩
    show outcome (if (!s.writer.isDone) = true then _ else _) _ = _
    rw [Bool.eq_false_iff.mpr hdone]
    show outcome (writeBuffer >>= fun _ => _) _ = _
    rw [outcome_bind_of_ok hwrite]
    rfl

/-- **One round of a fill**: it ends when the writer is full or no data is left. Otherwise it goes
on with an empty buffer. -/
theorem round_fills {next : FeedingM FeedError Nat} {coming : Bytes} (h : Took t image s taken)
    (hcoming : if feed.exhausted then coming = ByteArray.empty
      else feed.source.data? = some coming)
    (hnext : ∀ taken' s', Took t image s' taken' → taken'.size < t.size →
      feed.exhausted = false →
      Fills t image taken' coming next ⟨{ feed with buffer := ByteArray.empty }, s'⟩) :
    Fills t image taken (feed.buffer ++ coming) (do
        if ← settle then writerError FeedError.block BlockWriter.finish
        else if (← get).feed.exhausted then starve
        else next) ⟨feed, s⟩ := by
  obtain ⟨n, hn⟩ : ∃ n, n = min feed.buffer.size (t.size - taken.size) := ⟨_, rfl⟩
  obtain ⟨s', hsettle, htook⟩ := settle_took hset hlimit h hn
  have hfront : (feed.buffer.takeFirst n).size = n := by
    rw [Bytes.size_takeFirst]
    omega
  have hfits := h.fits
  have htaken : (taken ++ feed.buffer.takeFirst n).size = taken.size + n := by
    rw [ByteArray.size_append, hfront]
  -- what the writer had no room for is still left
  rw [← Bytes.takeFirst_append_dropFirst feed.buffer n, ByteArray.append_assoc]
  refine Fills.prepend ?_ (by omega)
  rw [Fills, outcome_bind_of_ok hsettle]
  cases hdone : s'.writer.isDone with
  | true =>
    -- a full writer finishes, and the feed keeps what is left for the next one
    have hfull := htook.isDone_iff.mp hdone
    refine ⟨⟨{ feed with buffer := feed.buffer.dropFirst n }, s'⟩, ?_, ?_, ?_⟩
    · show outcome (writerError FeedError.block BlockWriter.finish) _ = _
      rw [writerError, outcome_onWriter, outcome_writerMapError, htook.finish hfull,
        HandOver.answer, if_pos (by omega)]
      rfl
    · rw [hfull, Nat.sub_self, Bytes.dropFirst_zero, left?]
      by_cases hend : feed.exhausted = true
      · rw [if_pos hend] at hcoming ⊢
        rw [hcoming, ByteArray.append_empty]
      · rw [if_neg hend] at hcoming ⊢
        rw [hcoming]
        rfl
    · rwa [hfull, Nat.sub_self, Bytes.takeFirst_zero, ByteArray.append_empty]
  | false =>
    -- a writer with room left has emptied the buffer
    have hmore : (taken ++ feed.buffer.takeFirst n).size < t.size :=
      Nat.lt_of_le_of_ne htook.fits fun hfull => by
        rw [htook.isDone_iff.mpr hfull] at hdone
        cases hdone
    have hbuffer : feed.buffer.dropFirst n = ByteArray.empty :=
      Bytes.dropFirst_of_size_le (by omega)
    rw [hbuffer, ByteArray.empty_append]
    show ∃ s'', outcome (if feed.exhausted = true then starve else next) _ = _ ∧ _
    by_cases hend : feed.exhausted = true
    · rw [if_pos hend] at hcoming ⊢
      rw [hcoming]
      exact starve_fills htook hmore (by rw [left?, if_pos hend])
    · rw [if_neg hend]
      exact hnext _ s' htook hmore (Bool.eq_false_iff.mpr hend)

/-- **What a fill does**, whatever reads are to come. -/
theorem fillFrom_fills (pulls : List Pull) {feed : Feed} (hpulls : feed.source.pulls = pulls)
    {coming : Bytes} (h : Took t image s taken)
    (hcoming : if feed.exhausted then coming = ByteArray.empty
      else NewData.dataOf? feed.source.ending pulls = some coming) :
    Fills t image taken (feed.buffer ++ coming) (fillFrom pulls) ⟨feed, s⟩ := by
  -- every round empties the buffer, so that what is coming is all that is left for the next read
  induction pulls generalizing feed coming s taken with
  | nil =>
    refine round_fills hset hlimit h (by rw [NewData.data?, hpulls]; exact hcoming) ?_
    intro taken' s' htook hmore hend
    rw [hend, if_neg Bool.false_ne_true, NewData.dataOf?] at hcoming
    rw [Fills, outcome_get_bind]
    cases hending : feed.source.ending with
    | some error =>
      rw [hending] at hcoming
      cases hcoming
    | none =>
      rw [hending] at hcoming
      cases hcoming
      exact exhaust_fills htook hmore rfl
  | cons pull rest ih =>
    refine round_fills hset hlimit h (by rw [NewData.data?, hpulls]; exact hcoming) ?_
    intro taken' s' htook hmore hend
    rw [hend, if_neg Bool.false_ne_true, NewData.dataOf?.eq_def] at hcoming
    rw [Fills, outcome_bind_of_ok (outcome_modify _ _)]
    -- the feed after the read
    let feed' : Feed := { feed with buffer := ByteArray.empty, source.pulls := rest }
    cases pull with
    | failed error => cases hcoming
    | interrupted =>
      have hstill : if feed'.exhausted then coming = ByteArray.empty
          else NewData.dataOf? feed'.source.ending rest = some coming := by
        show if feed.exhausted = true then _ else _
        rwa [hend, if_neg Bool.false_ne_true]
      have hrest := ih rfl htook hstill
      rwa [show feed'.buffer = ByteArray.empty from rfl, ByteArray.empty_append] at hrest
    | bytes piece =>
      show Fills t image taken' coming (if piece.size = 0 then exhaust else _) ⟨feed', s'⟩
      by_cases hempty : piece.size = 0
      · -- an empty read is the end of the source
        simp only [hempty, if_true, Option.some.injEq] at hcoming
        rw [if_pos hempty, ← hcoming]
        exact exhaust_fills htook hmore rfl
      · simp only [hempty, if_false, Option.map_eq_some_iff] at hcoming
        obtain ⟨later, hlater, rfl⟩ := hcoming
        rw [if_neg hempty]
        rw [Fills, outcome_bind_of_ok (outcome_modify _ _)]
        let filled : Feed :=
          { feed' with buffer := piece, consumed := feed.consumed + piece.size }
        have hstill : if filled.exhausted then later = ByteArray.empty
            else NewData.dataOf? filled.source.ending rest = some later := by
          show if feed.exhausted = true then _ else _
          rwa [hend, if_neg Bool.false_ne_true]
        exact ih rfl htook hstill

/-- **A writer that is handed over** gets the first bytes of what is left. -/
theorem fill_fills (hleft : feed.left? = some left) {d : Device} (hd : d.Reliable) :
    Fills t d.image ByteArray.empty left fill ⟨feed, BlockWriter.new t.set t.dryRun, d⟩ := by
  rw [left?] at hleft
  have hnew := Took.new hset hd
  rw [Fills, fill, outcome_get_bind]
  by_cases hend : feed.exhausted = true
  · rw [if_pos hend] at hleft
    cases hleft
    rw [← ByteArray.append_empty (b := feed.buffer)]
    exact fillFrom_fills hset hlimit feed.source.pulls rfl hnew (by rw [if_pos hend])
  · rw [if_neg hend, Option.map_eq_some_iff] at hleft
    obtain ⟨coming, hcoming, rfl⟩ := hleft
    exact fillFrom_fills hset hlimit feed.source.pulls rfl hnew (by rwa [if_neg hend])

end Filling

/-! ## Writers one after the other -/

/-- What came of writers that were handed over. -/
structure HandedOver where
  results : List (Except FeedError Nat)
  feed : Feed
  device : Device

/-- Hands over writers, each of them when the one before is done or starved. -/
def handOver : List HandOver → Feed → Device → HandedOver
  | [], feed, d => ⟨[], feed, d⟩
  | t :: rest, feed, d =>
    let (result, s) := fill.run ⟨feed, BlockWriter.new t.set t.dryRun, d⟩
    let later := handOver rest s.feed s.writing.device
    { later with results := result :: later.results }

/-- A command that writes new data hands over one writer. -/
theorem handOver_fillFromNewData {set : BlockSet} {m : Machine} {feed : Feed}
    (hfeed : m.newData = some feed) :
    (outcome (Command.fillFromNewData set) m).2 =
      { m with
        device := (handOver [⟨set, !m.canWrite⟩] feed m.device).device
        newData := some (handOver [⟨set, !m.canWrite⟩] feed m.device).feed } := by
  rw [Command.fillFromNewData, outcome_mk, hfeed]
  rcases hfill : fill.run ⟨feed, BlockWriter.new set (!m.canWrite), m.device⟩ with ⟨_ | _, s⟩
  all_goals
    simp only [hfill, handOver]

theorem handOver_append (ts ts' : List HandOver) (feed : Feed) (d : Device) :
    handOver (ts ++ ts') feed d =
      { handOver ts' (handOver ts feed d).feed (handOver ts feed d).device with
        results := (handOver ts feed d).results ++
          (handOver ts' (handOver ts feed d).feed (handOver ts feed d).device).results } := by
  induction ts generalizing feed d with
  | nil => rfl
  | cons t rest ih =>
    simp only [List.cons_append, handOver, ih]
    rfl

@[simp] theorem length_results (ts : List HandOver) (feed : Feed) (d : Device) :
    (handOver ts feed d).results.length = ts.length := by
  induction ts generalizing feed d with
  | nil => rfl
  | cons t rest ih =>
    rw [List.length_cons, ← ih]
    rfl

end Feed

namespace HandOver

/-- A writer whose set is valid and has some blocks, all of them at offsets of a device. -/
structure Valid (t : HandOver) : Prop where
  set : t.set.Valid
  nonempty : 0 < t.size
  addressable : t.Addressable

/-- The sets that descriptors denote are no other. -/
theorem Valid.of_parse {text : String} {t : HandOver} (h : BlockSet.parse text = .ok t.set)
    (ht : t.Addressable) : t.Valid :=
  ⟨(BlockSet.Built.parse h).valid, BlockSet.byteLength_pos_of_parse h, ht⟩

/-- The size of everything that some writers take. -/
def sizes (ts : List HandOver) : Nat := (ts.map size).sum

end HandOver

namespace Feed

open HandOver (sizes)

variable {t : HandOver} {ts : List HandOver} {feed : Feed} {left : Bytes} {d : Device}

/-- **One hand-over**: the writer gets the first bytes of what is left. -/
theorem handOver_cons (ht : t.Valid) (hleft : feed.left? = some left) (hd : d.Reliable)
    (ts : List HandOver) :
    ∃ feed' d', handOver (t :: ts) feed d =
        { handOver ts feed' d' with
          results := t.answer left.size :: (handOver ts feed' d').results } ∧
      feed'.left? = some (left.dropFirst t.size) ∧ d'.Reliable ∧
      d'.image = t.filled d.image (left.takeFirst t.size) := by
  obtain ⟨s', hrun, hrest, htook⟩ := fill_fills ht.set.sound ht.addressable hleft hd
  rw [ByteArray.size_empty, Nat.zero_add] at hrun
  rw [ByteArray.size_empty, Nat.sub_zero] at hrest htook
  rw [ByteArray.empty_append] at htook
  refine ⟨s'.feed, s'.writing.device, ?_, hrest, htook.reliable, htook.image_filled⟩
  have hfill : fill.run ⟨feed, BlockWriter.new t.set t.dryRun, d⟩ =
    (t.answer left.size, s') := hrun
  simp only [handOver, hfill]

/-- After some hand-overs the bytes behind those of their writers are left. -/
theorem handOver_left (hts : ∀ t ∈ ts, t.Valid) (hleft : feed.left? = some left)
    (hd : d.Reliable) :
    (handOver ts feed d).feed.left? = some (left.dropFirst (sizes ts)) ∧
      (handOver ts feed d).device.Reliable := by
  induction ts generalizing feed d left with
  | nil =>
    rw [show sizes [] = 0 from rfl, Bytes.dropFirst_zero]
    exact ⟨hleft, hd⟩
  | cons t rest ih =>
    obtain ⟨feed', d', hrun, hleft', hd', -⟩ :=
      handOver_cons (hts t List.mem_cons_self) hleft hd rest
    have hrest := ih (fun q hq => hts q (List.mem_cons_of_mem t hq)) hleft' hd'
    rw [Bytes.dropFirst_dropFirst] at hrest
    rwa [hrun]

/-- Hand-overs do the same with the same data, wherever its reads end. -/
theorem handOver_congr (hts : ∀ t ∈ ts, t.Valid) {feed₁ feed₂ : Feed} {d₁ d₂ : Device}
    (hleft₁ : feed₁.left? = some left) (hleft₂ : feed₂.left? = some left) (hd₁ : d₁.Reliable)
    (hd₂ : d₂.Reliable) (himage : d₁.image = d₂.image) :
    (handOver ts feed₁ d₁).results = (handOver ts feed₂ d₂).results ∧
      (handOver ts feed₁ d₁).device.image = (handOver ts feed₂ d₂).device.image := by
  -- the feeds differ in their buffers, but not in the data that is left in them
  induction ts generalizing feed₁ feed₂ d₁ d₂ left with
  | nil => exact ⟨rfl, himage⟩
  | cons t rest ih =>
    have ht := hts t List.mem_cons_self
    obtain ⟨feed₁', d₁', hrun₁, hleft₁', hd₁', himage₁⟩ := handOver_cons ht hleft₁ hd₁ rest
    obtain ⟨feed₂', d₂', hrun₂, hleft₂', hd₂', himage₂⟩ := handOver_cons ht hleft₂ hd₂ rest
    obtain ⟨hresults, hdevice⟩ := ih (fun q hq => hts q (List.mem_cons_of_mem t hq))
      hleft₁' hleft₂' hd₁' hd₂' (by rw [himage₁, himage₂, himage])
    rw [hrun₁, hrun₂]
    exact ⟨congrArg (List.cons (t.answer left.size)) hresults, hdevice⟩

/-- **What writers get**, of any size. -/
theorem handOver_streamed {source : NewData} {data : Bytes} (hsource : source.data? = some data)
    (hd : d.Reliable) (hts : ∀ t ∈ ts, t.Valid) {k : Nat} (hk : ts[k]? = some t) :
    (handOver ts (start source) d).results[k]? = some
        (if sizes (ts.take k) + t.size ≤ data.size then .ok t.size
          else .error (.starved (data.size - sizes (ts.take k)) t.size)) ∧
      (handOver (ts.take (k + 1)) (start source) d).device.image =
        t.filled (handOver (ts.take k) (start source) d).device.image
          (data.extract (sizes (ts.take k)) (sizes (ts.take k) + t.size)) ∧
      ∀ source' : NewData, source'.data? = some data →
        (handOver ts (start source') d).results = (handOver ts (start source) d).results ∧
        (handOver ts (start source') d).device.image =
          (handOver ts (start source) d).device.image := by
  obtain ⟨hlt, hget⟩ := List.getElem?_eq_some_iff.mp hk
  have hsplit : ts = ts.take k ++ t :: ts.drop (k + 1) := by
    rw [← hget, List.getElem_cons_drop, List.take_append_drop]
  have hnext : ts.take (k + 1) = ts.take k ++ [t] := by
    rw [List.take_add_one, hk]
    rfl
  -- what is left for the writer is what those before it did not take
  have hstart : (start source).left? = some data := by rw [left?_start, hsource]
  have htaken : ∀ q ∈ ts.take k, q.Valid := fun q hq => hts q (List.mem_of_mem_take hq)
  obtain ⟨hleft, hreliable⟩ := handOver_left htaken hstart hd
  have ht : t.Valid := hts t (List.mem_of_getElem? hk)
  refine ⟨?_, ?_, fun source' hsource' => ?_⟩
  · obtain ⟨feed', d', hrun, -⟩ := handOver_cons ht hleft hreliable (ts.drop (k + 1))
    have hanswer : t.answer (data.dropFirst (sizes (ts.take k))).size =
        if sizes (ts.take k) + t.size ≤ data.size then .ok t.size
          else .error (.starved (data.size - sizes (ts.take k)) t.size) := by
      have hpos := ht.nonempty
      rw [HandOver.answer, Bytes.size_dropFirst]
      split_ifs <;> first | rfl | omega
    rw [← hanswer, congrArg (handOver · (start source) d) hsplit, handOver_append, hrun]
    have hlength : (handOver (ts.take k) (start source) d).results.length = k := by
      rw [length_results, List.length_take, Nat.min_eq_left (Nat.le_of_lt hlt)]
    rw [List.getElem?_append_right (Nat.le_of_eq hlength), hlength, Nat.sub_self]
    rfl
  · obtain ⟨feed', d', hrun, -, -, himage⟩ := handOver_cons ht hleft hreliable []
    rw [hnext, handOver_append, hrun]
    rw [Bytes.takeFirst_dropFirst] at himage
    exact himage
  · have hstart' : (start source').left? = some data := by rw [left?_start, hsource']
    exact handOver_congr hts hstart' hstart hd hd rfl

end Feed

/-! ## Words -/

namespace Compiled

/-- What came of writers that were handed over. -/
structure HandedOver where
  results : List (Except (Halt FeedError) Nat)
  feed : Feed
  device : Device

/-- Hands over writers, each of them when the one before is done or starved, and none behind one that
came to no such end. -/
def handOver (b : Build) : List HandOver → Feed → Device → HandedOver
  | [], feed, d => ⟨[], feed, d⟩
  | t :: rest, feed, d =>
    let (result, s) := (fill b).run ⟨feed, BlockWriter.new t.set t.dryRun, d⟩
    match result with
    | .ok _ | .error (.failed _) =>
      let later := handOver b rest s.feed s.writing.device
      { later with results := result :: later.results }
    | .error _ => ⟨[result], s.feed, s.writing.device⟩

/-- **Writers whose sizes fit a word** do what is said with numbers. -/
theorem handOver_eq {b : Build} {ts : List HandOver} (hts : ∀ t ∈ ts, t.set.Valid)
    (hfits : ∀ t ∈ ts, t.size < 2 ^ 64) (feed : Feed) (d : Device) :
    handOver b ts feed d = ⟨(Feed.handOver ts feed d).results.map unchecked,
      (Feed.handOver ts feed d).feed, (Feed.handOver ts feed d).device⟩ := by
  induction ts generalizing feed d with
  | nil => rfl
  | cons t rest ih =>
    have ht := hts t List.mem_cons_self
    have hrest := ih (fun q hq => hts q (List.mem_cons_of_mem t hq))
      fun q hq => hfits q (List.mem_cons_of_mem t hq)
    have hfill := (agrees_fill (b := b) ht
      (s := ⟨feed, BlockWriter.new t.set t.dryRun, d⟩) (Filling.new ht t.dryRun)).eq_of_lt
      (hfits t List.mem_cons_self)
    have hrun : (fill b).run ⟨feed, BlockWriter.new t.set t.dryRun, d⟩ = _ := hfill
    rw [handOver, hrun, Feed.handOver]
    rcases hnumbers : outcome Feed.fill ⟨feed, BlockWriter.new t.set t.dryRun, d⟩ with ⟨_ | _, s⟩
    all_goals
      have hrun' : Feed.fill.run ⟨feed, BlockWriter.new t.set t.dryRun, d⟩ = _ := hnumbers
      simp only [hrun', unchecked, Except.mapError, hrest, List.map_cons]

/-- A writer that is full takes nothing of what was left of earlier reads. -/
theorem outcome_settle_of_done {b : Build} {s : Feeding}
    (hdone : isDone b s.writing.writer = (.ok true : Except (Halt FeedError) Bool)) :
    outcome (settle b) s = (.ok true, s) := by
  have hgive : outcome (give (isDone b s.writing.writer)) s =
      (.ok true, s) := congrArg (·, s) hdone
  rw [settle, outcome_get_bind, outcome_bind_of_ok hgive]
  show outcome (get >>= fun s => give (isDone b s.writing.writer) >>= _) s = _
  rw [outcome_get_bind, outcome_bind_of_ok hgive]
  rfl

/-- A writer that is full finishes with what it counted. -/
theorem outcome_finish_of_done {b : Build} {s : Writing}
    (hdone : isDone b s.writer = (.ok true : Except (Halt BlockError) Bool))
    (hsyncs : ∀ n, s.device.faults.sync n = none) :
    outcome (finish b) s = (.ok s.writer.written, s) := by
  have hgive : outcome (give (isDone b s.writer)) s = (.ok true, s) := congrArg (·, s) hdone
  have hstep : outcome (step (BlockWriter.mapError BlockError.os
      (BlockWriter.onDevice DeviceM.sync))) s = (.ok (), s) :=
    congrArg (fun x => (unchecked x.1, x.2)) (BlockWriter.outcome_sync hsyncs)
  rw [finish, outcome_get_bind, outcome_bind_of_ok hgive]
  cases hdry : s.writer.dryRun with
  | true => rfl
  | false => exact outcome_bind_of_ok hstep _

/-- **A writer of nothing.** In a build that goes on with the lowest bits, a writer is full before it
got anything if the size of its set is a multiple of `2 ^ 64`. -/
theorem fill_of_wrapped {set : BlockSet} (hwrapped : set.byteLength % 2 ^ 64 = 0) (feed : Feed)
    {d : Device} (hsyncs : ∀ n, d.faults.sync n = none) :
    outcome (fill .wrapping) ⟨feed, BlockWriter.new set false, d⟩ =
      (.ok 0, ⟨feed, BlockWriter.new set false, d⟩) := by
  have hdone {ε : Type} :
      (isDone .wrapping (BlockWriter.new set false) : Except (Halt ε) Bool) = .ok true := by
    show (byteLength .wrapping set >>= fun _ => _) = _
    rw [byteLength_of_wrapped hwrapped]
    rfl
  have hround (next : CompiledM FeedError Feeding Nat) : outcome (do
        if ← settle .wrapping then onWriter FeedError.block (finish .wrapping)
        else if (← get).feed.exhausted then starve .wrapping
        else next) ⟨feed, BlockWriter.new set false, d⟩ =
      (.ok 0, ⟨feed, BlockWriter.new set false, d⟩) := by
    have hsettle := outcome_settle_of_done (s := ⟨feed, BlockWriter.new set false, d⟩) hdone
    have hfinish := outcome_finish_of_done (s := ⟨BlockWriter.new set false, d⟩) hdone hsyncs
    rw [outcome_bind_of_ok hsettle]
    show outcome (onWriter FeedError.block (finish .wrapping)) _ = _
    rw [onWriter, outcome_onPart, hfinish]
    rfl
  rw [fill, outcome_get_bind]
  cases feed.source.pulls with
  | nil => exact hround _
  | cons pull rest => exact hround _

end Compiled

namespace Feed

open HandOver (sizes)

variable {t : HandOver} {ts : List HandOver} {d : Device}

/-- **New data is streamed exactly**, however the program is built, as long as the sizes of the sets fit
a word. A writer succeeds if and only if the source holds all bytes for the writers up to it, and is
starved of the rest otherwise. What it lays down are the bytes behind those of the writers before it,
and where the reads of the source end has no influence. -/
theorem handOver_exact (b : Build) {source : NewData} {data : Bytes}
    (hsource : source.data? = some data) (hd : d.Reliable) (hts : ∀ t ∈ ts, t.Valid)
    (hfits : ∀ t ∈ ts, t.size < 2 ^ 64) {k : Nat} (hk : ts[k]? = some t) :
    (Compiled.handOver b ts (start source) d).results[k]? = some
        (if sizes (ts.take k) + t.size ≤ data.size then .ok t.size
          else .error (.failed (.starved (data.size - sizes (ts.take k)) t.size))) ∧
      (Compiled.handOver b (ts.take (k + 1)) (start source) d).device.image =
        t.filled (Compiled.handOver b (ts.take k) (start source) d).device.image
          (data.extract (sizes (ts.take k)) (sizes (ts.take k) + t.size)) ∧
      ∀ source' : NewData, source'.data? = some data →
        (Compiled.handOver b ts (start source') d).results =
          (Compiled.handOver b ts (start source) d).results ∧
        (Compiled.handOver b ts (start source') d).device.image =
          (Compiled.handOver b ts (start source) d).device.image := by
  have heq (n : Nat) (source : NewData) := Compiled.handOver_eq (b := b)
    (fun q hq => (hts q (List.mem_of_mem_take (i := n) hq)).set)
    (fun q hq => hfits q (List.mem_of_mem_take hq)) (start source) d
  have hall (source : NewData) := Compiled.handOver_eq (b := b) (fun q hq => (hts q hq).set) hfits
    (start source) d
  obtain ⟨hresult, himage, hsplit⟩ := handOver_streamed hsource hd hts hk
  refine ⟨?_, ?_, fun source' hsource' => ?_⟩
  · rw [hall, List.getElem?_map, hresult, Option.map_some]
    split <;> rfl
  · rw [heq, heq]
    exact himage
  · obtain ⟨hresults, hdevice⟩ := hsplit source' hsource'
    rw [hall, hall]
    exact ⟨congrArg (List.map Compiled.unchecked) hresults, hdevice⟩

/-- A block and three bytes in three reads, for two writers of a block each: the second one is
starved. -/
theorem handOver_exact_two :
    let source : NewData :=
      ⟨[.bytes (Bytes.zeros 1), .interrupted, .bytes (Bytes.zeros 4096), .bytes (Bytes.zeros 2)],
        none⟩
    let ts : List HandOver := [⟨⟨[⟨1, 1⟩], 1⟩, false⟩, ⟨⟨[⟨0, 1⟩], 1⟩, false⟩]
    let d := Device.file (Bytes.zeros 8192)
    (Compiled.handOver .wrapping ts (start source) d).results[0]? = some (.ok 4096) ∧
      (Compiled.handOver .wrapping ts (start source) d).results[1]? =
        some (.error (.failed (.starved 3 4096))) := by
  intro source ts d
  have hsource : source.data? = some
      (Bytes.zeros 1 ++ (Bytes.zeros 4096 ++ (Bytes.zeros 2 ++ ByteArray.empty))) := by
    simp [source, NewData.data?, NewData.dataOf?]
  have hd : d.Reliable := ⟨fun _ => rfl, fun _ => rfl⟩
  have hts : ∀ t ∈ ts, t.Valid := by
    intro t ht
    simp only [ts, List.mem_cons, List.not_mem_nil, or_false] at ht
    rcases ht with rfl | rfl
    · exact .of_parse (by rfl : BlockSet.parse "2,1,2" = _) fun _ => by decide
    · exact .of_parse (by rfl : BlockSet.parse "2,0,1" = _) fun _ => by decide
  have hfits : ∀ t ∈ ts, t.size < 2 ^ 64 := by
    intro t ht
    simp only [ts, List.mem_cons, List.not_mem_nil, or_false] at ht
    rcases ht with rfl | rfl <;> decide
  have hfirst := (handOver_exact .wrapping hsource hd hts hfits (k := 0) rfl).1
  have hsecond := (handOver_exact .wrapping hsource hd hts hfits (k := 1) rfl).1
  have hsize : (Bytes.zeros 1 ++ (Bytes.zeros 4096 ++ (Bytes.zeros 2 ++ ByteArray.empty))).size =
      4099 := by
    simp
  rw [hfirst, hsecond, hsize]
  simp [ts, sizes, HandOver.size, BlockSet.byteLength, blockSize]

/-- **A set whose size does not fit** is full at once where its size wraps around, and what it should
be filled with is not even looked for. With checks there is no answer either. -/
theorem handOver_quadrupled :
    let ts : List HandOver := [⟨BlockSet.quadrupled, false⟩]
    let d := Device.file ByteArray.empty
    (∀ t ∈ ts, t.Valid) ∧ d.Reliable ∧
      (Compiled.handOver .wrapping ts (start ⟨[], none⟩) d).results = [.ok 0] ∧
      (Compiled.handOver .checked ts (start ⟨[], none⟩) d).results = [.error .overflow] := by
  intro ts d
  have hlength := BlockSet.byteLength_quadrupled
  have hvalid : ∀ t ∈ ts, t.Valid := by
    intro t ht
    rw [List.mem_singleton.mp ht]
    exact .of_parse BlockSet.parse_quadrupled fun _ => by decide
  refine ⟨hvalid, ⟨fun _ => rfl, fun _ => rfl⟩, ?_, ?_⟩
  · have hwrapped : BlockSet.quadrupled.byteLength % 2 ^ 64 = 0 := by rw [hlength]
    have hfill := Compiled.fill_of_wrapped hwrapped (start ⟨[], none⟩) (d := d) (fun _ => rfl)
    have hrun : (Compiled.fill .wrapping).run
        ⟨start ⟨[], none⟩, BlockWriter.new BlockSet.quadrupled false, d⟩ = _ := hfill
    simp only [ts, Compiled.handOver, hrun]
  · have hfill := Compiled.outcome_fill_of_le
      (s := ⟨start ⟨[], none⟩, BlockWriter.new BlockSet.quadrupled false, d⟩) hlength.ge
    have hrun : (Compiled.fill .checked).run
        ⟨start ⟨[], none⟩, BlockWriter.new BlockSet.quadrupled false, d⟩ = _ := hfill
    simp only [ts, Compiled.handOver, hrun]

end Feed

end BlockUpdate
