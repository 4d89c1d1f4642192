import BlockUpdate.Proofs.HandOver
import BlockUpdate.Proofs.ReadBack
import BlockUpdate.Proofs.Writer

/-!
# What a stream leaves on a device

On a regular file without faults that holds a set, nothing but the size of a stream decides whether
it is taken, and its pieces leave no trace: what is on the device is what one write of the whole
stream would leave.

- `BlockSet.laid`: an image with data spread over some ranges.
- **`write_laid`**, **`read?_laid`**: what a buffer leaves, and what is read of it.
- `HandOver.Took.put`, `put_tooLong`: a piece that must be taken whole.
- **`BlockSet.receive_eq_ok`**: an emission that fills its set succeeds and leaves its bytes there.
- `BlockSet.receive_tooLong`, `receive_failed`, `receive_tooShort`: how other emissions end.
- **`Feed.fill_once`**: new data that arrives in one piece.
-/

namespace BlockUpdate

/-- Nothing fails on a healthy device. -/
theorem Device.Healthy.reliable {d : Device} (hd : d.Healthy) : d.Reliable where
  writes k := by
    rw [hd.1]
    rfl
  syncs k := by
    rw [hd.1]
    rfl

namespace BlockSet

variable {ranges : List BlockRange} {set : BlockSet} {data image : Bytes} {d : Device}

/-! ## Images with data spread over ranges -/

/-- An image with data spread over some ranges, from an offset in the first one on. -/
def laid : List BlockRange → Nat → Bytes → Bytes → Bytes
  | [], _, _, image => image
  | r :: rest, offset, data, image =>
    laid rest 0 (data.dropFirst (r.byteLength - offset))
      (image.writeAt (r.byteStart + offset) (data.takeFirst (r.byteLength - offset)))

/-- Within an image, data is spread by the writes that lay it on the ranges. -/
theorem laid_eq_overwrite (h : Within ranges image.size) (data : Bytes) :
    laid ranges 0 data image = image.overwrite (placing ranges 0 data) := by
  induction ranges generalizing data image with
  | nil => rfl
  | cons r rest ih =>
    have hr : r.byteStart + r.byteLength ≤ image.size := h r List.mem_cons_self
    let first : Write := ⟨r.byteStart + 0, data.takeFirst (r.byteLength - 0)⟩
    have hafter : image.after first = image.writeAt first.offset first.data := by
      rw [Bytes.after]
      split_ifs with hempty
      · have hstart : first.offset ≤ image.size := by
          show r.byteStart + 0 ≤ image.size
          omega
        rw [ByteArray.size_eq_zero_iff.mp hempty, Bytes.writeAt_empty hstart]
      · rfl
    have hsize : (image.writeAt first.offset first.data).size = image.size := by
      have hfirst : first.data.size = min (r.byteLength - 0) data.size := Bytes.size_takeFirst ..
      rw [Bytes.size_writeAt]
      show max image.size (r.byteStart + 0 + first.data.size) = image.size
      omega
    have hrest : Within rest (image.writeAt first.offset first.data).size := by
      rw [hsize]
      exact fun q hq => h q (List.mem_cons_of_mem r hq)
    rw [laid, placing, Bytes.overwrite, hafter]
    exact ih hrest _

/-- Ranges that a file holds are at valid offsets. -/
theorem Within.addressable {dryRun : Bool} (h : Within set.ranges image.size)
    (hlimit : image.size ≤ Device.offsetLimit) : (⟨set, dryRun⟩ : HandOver).Addressable :=
  fun _ r hr => Nat.le_trans (h r hr) hlimit

theorem Within.lt_offsetLimit (h : Within ranges image.size)
    (hlimit : image.size ≤ Device.offsetLimit) (hpos : ∀ r ∈ ranges, 0 < r.count) :
    ∀ r ∈ ranges, r.byteStart < Device.offsetLimit := by
  intro r hr
  have hend := h r hr
  have hlength := BlockRange.byteLength_pos (hpos r hr)
  omega

/-! ## Buffers -/

/-- **A buffer that is written** leaves the same as a stream of its front. -/
theorem write_laid (hset : set.Sound) (hd : d.Healthy) (hin : Within set.ranges d.image.size)
    (hlimit : d.image.size ≤ Device.offsetLimit) (hdata : set.byteLength ≤ data.size) :
    ∃ n d', outcome (set.write data) d = (.ok n, d') ∧ d'.Healthy ∧
      d'.image = laid set.ranges 0 data d.image := by
  refine ⟨_, _, write_of_reliable hset hdata hd.reliable.writes
      (hin.lt_offsetLimit hlimit hset.nonempty),
    (d.after_healthy _).mpr hd, ?_⟩
  rw [laid_eq_overwrite hin, Device.after_image]

/-- **Ranges without common bytes hold what was spread over them.** -/
theorem read?_laid (hset : set.Sound) (hd : d.Healthy) (hin : Within set.ranges image.size)
    (hlimit : image.size ≤ Device.offsetLimit) (hapart : Apart set.ranges)
    (hdata : set.byteLength ≤ data.size) (himage : d.image = laid set.ranges 0 data image) :
    set.read? d = some (data.takeFirst set.byteLength) := by
  rw [laid_eq_overwrite hin] at himage
  rw [hset.byteLength_eq] at hdata ⊢
  have hreads : ∀ start, d.faults.read start = none := fun start => by
    rw [hd.1]
    rfl
  rw [read?_of_within hd.2 hreads (hin.lt_offsetLimit hlimit hset.nonempty), himage,
    contents_overwrite_placing hapart hdata]
  rw [himage]
  exact within_overwrite_placing hset.nonempty hdata

end BlockSet

namespace HandOver.Took

variable {t : HandOver} {image taken data : Bytes} {s : Writing}

/-! ## Pieces that must be taken whole -/

/-- A piece that fits is taken whole. -/
theorem put (h : Took t image s taken) (hset : t.set.Sound) (hlimit : t.Addressable)
    (hroom : taken.size + data.size ≤ t.size) :
    ∃ s', outcome (BlockWriter.put data) s = (.ok (), s') ∧ Took t image s' (taken ++ data) := by
  obtain ⟨s', hwrite, htook⟩ := h.write hset hlimit data
  rw [Nat.min_eq_left (by omega)] at hwrite htook
  rw [Bytes.takeFirst_of_size_le (Nat.le_refl _)] at htook
  refine ⟨s', ?_, htook⟩
  rw [BlockWriter.outcome_put_of_le (by rw [h.remaining_eq]; omega), hwrite]
  rfl

/-- A piece that does not fit is refused. -/
theorem put_tooLong (h : Took t image s taken) (hlong : t.size < taken.size + data.size) :
    ∃ n, outcome (BlockWriter.put data) s = (.error (.outOfRange (.targetFull n)), s) := by
  have hfits := h.fits
  exact ⟨_, BlockWriter.outcome_put_of_lt (by rw [h.remaining_eq]; omega)⟩

/-- Pieces that fit are taken. -/
theorem pieces (hset : t.set.Sound) (hlimit : t.Addressable) (pieces : List Bytes)
    (h : Took t image s taken) (hroom : taken.size + (Bytes.join pieces).size ≤ t.size) :
    ∃ s', Emission.deliverPieces (fun s piece => (BlockWriter.put piece).run s) pieces s =
        (.ok (), s') ∧
      Took t image s' (taken ++ Bytes.join pieces) := by
  induction pieces generalizing s taken with
  | nil => exact ⟨s, rfl, by rwa [Bytes.join_nil, ByteArray.append_empty]⟩
  | cons piece rest ih =>
    rw [Bytes.join_cons, ByteArray.size_append] at hroom
    obtain ⟨s₁, hput, hs₁⟩ := h.put hset hlimit (by omega : taken.size + piece.size ≤ t.size)
    obtain ⟨s', hrest, hs'⟩ := ih hs₁ (by rw [ByteArray.size_append]; omega)
    refine ⟨s', ?_, ?_⟩
    · rw [Emission.deliverPieces, show (BlockWriter.put piece).run s = _ from hput]
      exact hrest
    · rwa [Bytes.join_cons, ← ByteArray.append_assoc]

/-- Pieces that do not fit are refused at one of them. -/
theorem pieces_tooLong (hset : t.set.Sound) (hlimit : t.Addressable) (pieces : List Bytes)
    (h : Took t image s taken) (hlong : t.size < taken.size + (Bytes.join pieces).size) :
    ∃ n s', Emission.deliverPieces (fun s piece => (BlockWriter.put piece).run s) pieces s =
      (.error (.outOfRange (.targetFull n)), s') := by
  induction pieces generalizing s taken with
  | nil =>
    have hfits := h.fits
    rw [Bytes.join_nil, ByteArray.size_empty] at hlong
    omega
  | cons piece rest ih =>
    rw [Bytes.join_cons, ByteArray.size_append] at hlong
    by_cases hroom : taken.size + piece.size ≤ t.size
    · obtain ⟨s₁, hput, hs₁⟩ := h.put hset hlimit hroom
      obtain ⟨n, s', hrest⟩ := ih hs₁ (by rw [ByteArray.size_append]; omega)
      refine ⟨n, s', ?_⟩
      rw [Emission.deliverPieces, show (BlockWriter.put piece).run s = _ from hput]
      exact hrest
    · obtain ⟨n, hput⟩ := h.put_tooLong (by omega : t.size < taken.size + piece.size)
      refine ⟨n, s, ?_⟩
      rw [Emission.deliverPieces, show (BlockWriter.put piece).run s = _ from hput]

/-- A writer that did not take all of its set complains. -/
theorem finish_tooShort (h : Took t image s taken) (hshort : taken.size ≠ t.size) :
    outcome BlockWriter.finish s = (.error (.shortWrite taken.size t.size), s) := by
  have hdone : s.writer.isDone = false :=
    Bool.eq_false_iff.mpr fun h' => hshort (h.isDone_iff.mp h')
  rw [BlockWriter.finish, outcome_get_bind]
  show outcome (if (!s.writer.isDone) = true then _ else _) s = _
  rw [hdone, h.written, BlockWriter.expected, h.set_eq]
  rfl

end HandOver.Took

/-! ## Emissions -/

namespace BlockSet

open BlockWriter (finish)
open HandOver (Took)

variable {set : BlockSet} {d : Device} {α : Type} {e : Emission α}

theorem outcome_receive (set : BlockSet) (e : Emission α) (d : Device) :
    outcome (set.receive e) d =
      ((outcome (BlockWriter.mapError BlockError.patch (BlockWriter.receive e) >>= fun _ => finish)
          ⟨BlockWriter.new set false, d⟩).1,
        (outcome (BlockWriter.mapError BlockError.patch (BlockWriter.receive e) >>= fun _ => finish)
          ⟨BlockWriter.new set false, d⟩).2.device) := rfl

section Receive

variable (hset : set.Sound) (hd : d.Healthy) (hin : Within set.ranges d.image.size)
  (hlimit : d.image.size ≤ Device.offsetLimit)

include hset hd hin hlimit

/-- An emission that fits is taken, and then it ends as it does. -/
theorem receive_of_le (hsize : e.bytes.size ≤ set.byteLength) :
    ∃ s, Took ⟨set, false⟩ d.image s e.bytes ∧
      (∀ err, e.outcome = .error err →
        outcome (set.receive e) d = (.error (.patch err), s.device)) ∧
      ∀ a, e.outcome = .ok a →
        outcome (set.receive e) d = ((outcome finish s).1, (outcome finish s).2.device) := by
  let t : HandOver := ⟨set, false⟩
  have haddressable : t.Addressable := hin.addressable hlimit
  obtain ⟨s, hpieces, hs⟩ := Took.pieces hset haddressable e.pieces
    (Took.new hset hd.reliable) (by
      rw [ByteArray.size_empty, Nat.zero_add]
      exact hsize)
  rw [ByteArray.empty_append] at hs
  have hreceive : outcome (BlockWriter.mapError BlockError.patch (BlockWriter.receive e))
      ⟨BlockWriter.new set false, d⟩ = (e.outcome.mapError BlockError.patch, s) := by
    rw [outcome_writerMapError]
    show ((Emission.deliver _ e _).1.mapError _, (Emission.deliver _ e _).2) = _
    rw [Emission.deliver, hpieces]
  refine ⟨s, hs, fun err herr => ?_, fun a ha => ?_⟩
  · rw [herr] at hreceive
    rw [outcome_receive, outcome_bind_of_error hreceive]
  · rw [ha] at hreceive
    rw [outcome_receive, outcome_bind_of_ok hreceive]

/-- **An emission that fills its set** succeeds, and what it hands over is on the device. -/
theorem receive_eq_ok {a : α} (ha : e.outcome = .ok a) (hsize : e.bytes.size = set.byteLength) :
    ∃ d', outcome (set.receive e) d = (.ok set.byteLength, d') ∧ d'.Healthy ∧
      d'.image = laid set.ranges 0 e.bytes d.image := by
  obtain ⟨s, hs, -, hok⟩ := receive_of_le hset hd hin hlimit (Nat.le_of_eq hsize)
  have hrun : outcome (set.receive e) d = (.ok set.byteLength, s.device) := by
    rw [hok a ha, hs.finish hsize]
    rfl
  obtain ⟨_, _, ws, -, hplan⟩ := (planned_receive hset e).of_healthy hd
  refine ⟨s.device, hrun, ?_, ?_⟩
  · rw [(Prod.mk.inj (hrun.symm.trans hplan)).2]
    exact (d.after_healthy ws).mpr hd
  · rw [hs.image_filled, laid_eq_overwrite hin]
    rfl

/-- An emission that does not fill its set fails. -/
theorem receive_tooShort {a : α} (ha : e.outcome = .ok a) (hsize : e.bytes.size < set.byteLength) :
    ∃ d', outcome (set.receive e) d =
      (.error (.shortWrite e.bytes.size set.byteLength), d') := by
  obtain ⟨s, hs, -, hok⟩ := receive_of_le hset hd hin hlimit (Nat.le_of_lt hsize)
  refine ⟨s.device, ?_⟩
  rw [hok a ha, hs.finish_tooShort (Nat.ne_of_lt hsize)]
  rfl

/-- An emission that fails, and hands over no more than fits, fails in the same way. -/
theorem receive_failed {err : PatchError} (herr : e.outcome = .error err)
    (hsize : e.bytes.size ≤ set.byteLength) :
    ∃ d', outcome (set.receive e) d = (.error (.patch err), d') := by
  obtain ⟨s, -, herror, -⟩ := receive_of_le hset hd hin hlimit hsize
  exact ⟨s.device, herror err herr⟩

/-- An emission that hands over more than fits is refused, however it would have ended. -/
theorem receive_tooLong (hsize : set.byteLength < e.bytes.size) :
    ∃ n d', outcome (set.receive e) d = (.error (.patch (.outOfRange (.targetFull n))), d') := by
  let t : HandOver := ⟨set, false⟩
  have haddressable : t.Addressable := hin.addressable hlimit
  obtain ⟨n, s, hpieces⟩ := Took.pieces_tooLong hset haddressable e.pieces
    (Took.new hset hd.reliable) (by
      rw [ByteArray.size_empty, Nat.zero_add]
      exact hsize)
  refine ⟨n, s.device, ?_⟩
  have hreceive : outcome (BlockWriter.mapError BlockError.patch (BlockWriter.receive e))
      ⟨BlockWriter.new set false, d⟩ = (.error (.patch (.outOfRange (.targetFull n))), s) := by
    rw [outcome_writerMapError]
    show ((Emission.deliver _ e _).1.mapError _, (Emission.deliver _ e _).2) = _
    rw [Emission.deliver, hpieces]
    rfl
  rw [outcome_receive, outcome_bind_of_error hreceive]

end Receive

end BlockSet

/-! ## New data -/

/-- **Data that arrives in one piece** fills a writer. -/
theorem Feed.fill_once {set : BlockSet} {d : Device} {data : Bytes} (hset : set.Sound)
    (hd : d.Healthy) (hin : BlockSet.Within set.ranges d.image.size)
    (hlimit : d.image.size ≤ Device.offsetLimit) (hsize : data.size = set.byteLength)
    (hpos : 0 < data.size) :
    ∃ n s, outcome fill ⟨start ⟨[.bytes data], none⟩, BlockWriter.new set false, d⟩ = (.ok n, s) ∧
      s.writing.device.Healthy ∧
      s.writing.device.image = BlockSet.laid set.ranges 0 data d.image := by
  let t : HandOver := ⟨set, false⟩
  have hleft : (start ⟨[.bytes data], none⟩).left? = some data := by
    rw [left?_start, NewData.data?, NewData.dataOf?, if_neg (Nat.ne_of_gt hpos)]
    exact congrArg some ByteArray.append_empty
  have haddressable : t.Addressable := hin.addressable hlimit
  obtain ⟨s, hrun, -, htook⟩ := fill_fills hset haddressable hleft hd.reliable
  have hfull : t.answer (ByteArray.empty.size + data.size) = .ok t.size := by
    rw [ByteArray.size_empty, Nat.zero_add]
    exact if_pos (Nat.le_of_eq hsize.symm)
  rw [hfull] at hrun
  obtain ⟨_, k, ws, -, hplan⟩ := (planned_fill hset (start ⟨[.bytes data], none⟩)).of_healthy hd
  refine ⟨_, s, hrun, ?_, ?_⟩
  · rw [(Prod.mk.inj (hrun.symm.trans hplan)).2]
    exact (d.after_healthy ws).mpr hd
  · have hall : data.takeFirst (t.size - ByteArray.empty.size) = data :=
      Bytes.takeFirst_of_size_le (Nat.le_of_eq hsize)
    rw [htook.image_filled, hall, ByteArray.empty_append, BlockSet.laid_eq_overwrite hin]
    rfl

end BlockUpdate
