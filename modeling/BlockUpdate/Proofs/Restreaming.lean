import BlockUpdate.Proofs.CleanStart
import BlockUpdate.Proofs.Redoing

/-!
# Streaming new data again

A session that resumes writes all new data again and skips whatever was made of it. Its image is
that of the stopped session only if nothing was: a block that was streamed and then written by
another command holds its new data again.

- `Session.imageAfter`: the image of a fresh session when it is done with some lines.
- `Session.Redone`: what the command writes whose marker was lost.
- `Session.StreamsStay`: what was streamed last is still there, but for what is redone.
- **`restreamed_image_eq_iff`**: the image is that of the stop exactly if the streams stay.
-/

namespace BlockUpdate

/-- The contents of block sets. -/
def Command.Contents (d d' : Device) (data : Bytes) : Prop :=
  ∃ set : BlockSet, set.read? d = some data ∨ set.read? d' = some data

/-! ## Images by line -/

namespace Session

open SessionOptions

variable {P : Primitives} {o : SessionOptions} {place : Place} {commands : List String}
  {lines : List String} {inputs : ScriptInputs} {w w₁ w₂ : World} {header : ScriptHeader}
  {used count k : Nat} {p : Prepared} {machine : Nat → Machine} {stop : Stop} {n n₁ : Machine}

/-- The image of a fresh session when it is done with some lines. -/
def imageAfter (P : Primitives) (o : SessionOptions) (lines : List String) (inputs : ScriptInputs)
    (w : World) (k : Nat) : Bytes :=
  (outcome (interrupted P o ⟨k, false⟩ lines inputs) w).2.device.image

/-- A byte that the command writes whose marker was lost. -/
def Redone (commands : List String) (stop : Stop) (i : Nat) : Prop :=
  stop.unsaved = true ∧
    ∃ c, instruction? commands stop.lines = some c ∧ c.verb ≠ .new ∧ c.Targets i

/-- What was streamed last to a byte is still there at the stop, unless the byte is redone. -/
def StreamsStay (P : Primitives) (o : SessionOptions) (lines : List String) (inputs : ScriptInputs)
    (w : World) (commands : List String) (stop : Stop) : Prop :=
  ∀ i j, Streams commands stop.done j i → ¬ Redone commands stop i →
    (imageAfter P o lines inputs w (j + 1)).byte i =
      (imageAfter P o lines inputs w stop.done).byte i

theorem Fresh.imageAfter_eq (h : Fresh P o lines inputs w header place p count machine)
    (hsize : count ≤ Decimal.limit64) (hk : k ≤ count) :
    imageAfter P o lines inputs w k = (machine k).device.image := by
  have hdone : Stop.done ⟨k, false⟩ ≤ count := hk
  obtain ⟨r, hrun, hdevice, -⟩ := h.stopped hsize hdone
  rw [imageAfter, hrun]
  exact congrArg Device.image hdevice

/-- What stays, in terms of the history. -/
theorem Fresh.streamsStay_iff (stop : Stop)
    (h : Fresh P o lines inputs w header place p count machine) (hsize : count ≤ Decimal.limit64)
    (hstop : stop.done ≤ count) :
    StreamsStay P o lines inputs w p.commands stop ↔
      ∀ i j, Streams p.commands stop.done j i → ¬ Redone p.commands stop i →
        (machine (j + 1)).device.image.byte i = (machine stop.done).device.image.byte i := by
  refine forall_congr' fun i => forall_congr' fun j => forall_congr' fun hs => ?_
  rw [h.imageAfter_eq hsize hstop, h.imageAfter_eq hsize (Nat.le_trans hs.1 hstop)]

/-- Where nothing is redone, this is what keeps a history undisturbed. -/
theorem Fresh.undisturbed_iff (stop : Stop)
    (h : Fresh P o lines inputs w header place p count machine) (hsize : count ≤ Decimal.limit64)
    (hstop : stop.done ≤ count) (hredone : ∀ i, ¬ Redone p.commands stop i) :
    StreamsStay P o lines inputs w p.commands stop ↔
      Undisturbed p.commands machine stop.done := by
  rw [h.streamsStay_iff stop hsize hstop]
  exact ⟨fun hall i j hs => hall i j hs (hredone i), fun hall i j hs _ => hall i j hs⟩

/-! ## The image of a session that resumes -/

/-- The image after a command that is redone is that of the history, if the streams stay elsewhere. -/
theorem image_eq_iff_of_redone (h : History P o place commands (k + 1) machine) {c : Command}
    (hc : instruction? commands k = some c) (hverb : c.verb ≠ .new)
    (hr : Replaying .none o place commands machine (k + 1) k n) (hwork : o.Workspace n.files place)
    (hbase : n.stash.base = o.stashDir) (hendless : (machine 0).device.endless = false)
    (hredo : outcome (c.run P) n = (.ok (), n₁))
    (hfree : CollisionFree P (Command.Contents (machine (k + 1)).device n₁.device)) :
    n₁.device.image = (machine (k + 1)).device.image ↔
      ∀ i j, Streams commands (k + 1) j i → ¬ c.Targets i →
        (machine (j + 1)).device.image.byte i = (machine (k + 1)).device.image.byte i := by
  have hk := Nat.lt_succ_self k
  have hpass := hr.pass h hk fun c' hc' => by
    rw [hc] at hc'
    exact Option.some.inj hc' ▸ hverb
  have hsited := hwork.sited h.plain hbase
  obtain ⟨m₁, hrun, hmachine⟩ := h.step_of_instruction? hk hc
  have hdevice : (machine (k + 1)).device = m₁.device := by rw [hmachine, marked_eq]
  have hle := Nat.le_of_lt hk
  have hbefore := h.within_of_le hle (Nat.le_refl _)
  have hendless₀ : (machine k).device.endless = false :=
    (h.within_zero hle).endless.trans hendless
  have hpaired : (machine k).Paired (o.stashAt place) (o.stashAt place) n :=
    { live := h.live_at hle
      live' := hr.follows.live'
      allowFileErase := hr.follows.allowFileErase.trans hbefore.allowFileErase
      endless := hendless₀
      endless' := by rw [hr.endless, hbefore.endless, hendless₀]
      discards := hr.discards.trans hbefore.discards
      sited := h.sited_at hle
      sited' := hsited }
  have hlive : n.canWrite = true := hpaired.live'
  obtain ⟨hsize, hbytes⟩ := Command.redone hpaired (fun hnew => absurd hnew hverb) hrun hredo
    (by rw [hr.size, hdevice]) (hfree.mono fun data ⟨r, _, hread⟩ => ⟨r.target, hdevice ▸ hread⟩)
  rw [← hdevice] at hbytes
  have helse : ∀ i, ¬ c.Targets i → n₁.device.image.byte i = n.device.image.byte i :=
    fun i hi => (Command.run_within hlive hsited hredo).byte hi
  constructor
  · intro himage i j hs hi
    rw [← hpass.streamed i j hs, ← helse i hi, himage]
  · intro hall
    refine Bytes.ext_byte (hsize.trans hr.size) fun i => ?_
    by_cases hi : c.Targets i
    · exact hbytes i hi
    · rw [helse i hi]
      by_cases hnew : ∃ j < k + 1, NewAt commands j i
      · obtain ⟨j, hj, hnew⟩ := hnew
        obtain ⟨l, hs⟩ := exists_streams hj hnew
        rw [hpass.streamed i l hs, hall i l hs hi]
      · exact hpass.kept i fun j hj hij => hnew ⟨j, hj, hij⟩

/-- A session that resumes skips no command that would leave an entry in place, as long as it is
not past the marker. -/
theorem not_leavesEntry_of_skips {skip : RetrySkip} (hskips : Skips commands k skip) {j : Nat}
    (hj : j < k) {c : Command} (hc : instruction? commands j = some c)
    (hskip : skip.skips c = false) (m : Machine) : ¬ c.LeavesEntry m := by
  rintro ⟨hverb, -⟩
  rcases hskips.cases hc with ⟨hskip', -, -⟩ | ⟨-, hle⟩
  · rw [hskip] at hskip'
    cases hskip'
  · have := hle (by rw [hverb]; exact nofun)
    omega

/-- **A session that resumes** comes to the line whose marker was found, unless the device fails. -/
theorem Fresh.resumes (h : Fresh P o lines inputs w header place p stop.done machine)
    (hwrite : o.canWrite = true) (hsize : stop.done ≤ Decimal.limit64)
    (hstop : outcome (Session.interrupted P o stop lines inputs) w = (.ok (), w₁)) :
    ∃ skip m, Skips p.commands stop.lines skip ∧
      outcome (prepare { o with retry := true } lines inputs) w₁ = (.ok ⟨p.commands, skip, m⟩, w₁) ∧
      w₁.device = (machine stop.done).device ∧
      Proceeds (runLines P { o with retry := true } skip 0 (p.commands.take stop.lines))
        (machine 0).device.faults
        (Underway .none { o with retry := true } place p.commands machine stop.lines stop.done
          stop.lines) { machine := m, progress := w₁.progress } := by
  obtain ⟨r, hrun, hdevice, hstopped⟩ := h.stopped hsize (Nat.le_refl _)
  rw [hstop] at hrun
  obtain rfl : w₁ = r.world := congrArg Prod.snd hrun
  obtain ⟨used, hheader, hcommands⟩ := h.commands
  obtain ⟨skip, hskips, hprepare, hunderway⟩ :=
    hstopped.prepare (o := { o with retry := true }) rfl hwrite h.history.plain hheader hcommands
  refine ⟨skip, _, hskips, hprepare, hdevice, ?_⟩
  exact Underway.lines (h.resumption hwrite hsize (Nat.le_refl _) stop.done_bounds.1 fun hlt =>
    absurd hlt (Nat.lt_irrefl _)) hskips hunderway (Nat.le_refl _)
    fun _ j hj c r' hc hskip _ => not_leavesEntry_of_skips hskips hj hc hskip _

/-- A session that is told to stop behind some lines runs these. -/
theorem interrupted_saved_eq_ok {skip : RetrySkip} {m : Machine} {w' : World}
    (hprepare : outcome (prepare o lines inputs) w₁ = (.ok ⟨commands, skip, m⟩, w')) :
    outcome (interrupted P o ⟨k, false⟩ lines inputs) w₁ = (.ok (), w₂) ↔
      ∃ r : Run, outcome (runLines P o skip 0 (commands.take k))
        { machine := m, progress := w'.progress } = (.ok (), r) ∧ w₂ = r.world := by
  rw [interrupted_eq_ok]
  constructor
  · rintro ⟨p, w, r, hprepared, hrun, rfl⟩
    rw [hprepare] at hprepared
    obtain ⟨hp, rfl⟩ := Prod.ext_iff.mp hprepared
    obtain rfl := Except.ok.inj hp
    obtain ⟨⟨⟩, r₁, hlines, h⟩ := outcome_bind_eq_ok.mp hrun
    obtain rfl : r₁ = r := congrArg Prod.snd h
    exact ⟨r₁, hlines, rfl⟩
  · rintro ⟨r, hlines, rfl⟩
    refine ⟨_, _, r, hprepare, ?_, rfl⟩
    rw [runUntil, outcome_bind_of_ok hlines]
    rfl

/-- On a line without a command there is nothing to redo. -/
theorem image_eq_iff_of_idle (h : Fresh P o lines inputs w header place p (k + 1) machine)
    (hsize : k + 1 ≤ Decimal.limit64) (hc : instruction? p.commands k = none)
    (hr : Replaying .none { o with retry := true } place p.commands machine (k + 1) k n) :
    n.device.image = (machine (k + 1)).device.image ↔
      StreamsStay P o lines inputs w p.commands ⟨k, true⟩ := by
  have hidle := hr.pass h.history.retrying (Nat.lt_succ_self k) (by rw [hc]; exact nofun)
  have hredone : ∀ i, ¬ Redone p.commands ⟨k, true⟩ i := by
    rintro i ⟨-, c, hc', -⟩
    rw [hc] at hc'
    cases hc'
  rw [hidle.image_eq_iff]
  exact (h.undisturbed_iff ⟨k, true⟩ hsize (Nat.le_refl _) hredone).symm

/-- What a session that resumes makes of the line whose marker was lost. -/
theorem image_eq_iff_of_unsaved (h : Fresh P o lines inputs w header place p (k + 1) machine)
    (hsize : k + 1 ≤ Decimal.limit64) (hendless : w.device.endless = false) {skip : RetrySkip}
    (hskips : Skips p.commands k skip) {r r' : Run}
    (hr : Underway .none { o with retry := true } place p.commands machine k (k + 1) k r.machine)
    {line : String} (hline : p.commands[k]? = some line)
    (hrun : outcome (runLine P { o with retry := true } skip k line) r = (.ok (), r'))
    (hfree : CollisionFree P (Command.Contents (machine (k + 1)).device r'.machine.device)) :
    r'.machine.device.image = (machine (k + 1)).device.image ↔
      StreamsStay P o lines inputs w p.commands ⟨k, true⟩ := by
  have hk := Nat.lt_succ_self k
  have hreplays := hr.tracks.replays (Nat.le_succ k)
  rcases hc : instruction? p.commands k with _ | c
  · rw [runLine_idle hline hc fun e => h.history.readable k hk line e hline] at hrun
    obtain rfl : r = r' := congrArg Prod.snd hrun
    exact image_eq_iff_of_idle h hsize hc hreplays
  have hskip : skip.skips c = false := by
    rcases hskips.cases hc with ⟨-, -, hlt⟩ | ⟨hskip, -⟩
    · exact absurd hlt (Nat.lt_irrefl k)
    · exact hskip
  rw [runLine_instruction hline hc, if_neg (by rw [hskip]; exact nofun)] at hrun
  obtain ⟨n₁, t, hcommand, -, hmachine⟩ := runCommand_eq_ok hrun
  rw [hmachine] at hfree ⊢
  by_cases hverb : c.verb = .new
  · rcases hreplays.stream h.history.retrying hk (Nat.le_refl _) hc hverb with
      ⟨n', hn', hdone⟩ | ⟨-, e, n', hn', -⟩
    · rw [hn'] at hcommand
      obtain rfl : n' = n₁ := congrArg Prod.snd hcommand
      have hredone : ∀ i, ¬ Redone p.commands ⟨k, true⟩ i := by
        rintro i ⟨-, c', hc', hverb', -⟩
        rw [hc] at hc'
        exact hverb' (Option.some.inj hc' ▸ hverb)
      rw [hdone.image_eq_iff]
      exact (h.undisturbed_iff ⟨k, true⟩ hsize (Nat.le_refl _) hredone).symm
    · rw [hn'] at hcommand
      cases congrArg Prod.fst hcommand
  · rw [image_eq_iff_of_redone h.history.retrying hc hverb hreplays hr.tracks.work hr.tracks.base
      (by rw [h.device]; exact hendless) hcommand hfree, h.streamsStay_iff ⟨k, true⟩ hsize (Nat.le_refl _)]
    refine forall_congr' fun i => forall_congr' fun j => forall_congr' fun hs => ?_
    have hredone : Redone p.commands ⟨k, true⟩ i ↔ c.Targets i := by
      constructor
      · rintro ⟨-, c', hc', -, hi⟩
        rw [hc] at hc'
        exact Option.some.inj hc' ▸ hi
      · exact fun hi => ⟨rfl, c, hc, hverb, hi⟩
    rw [hredone]
    rfl

/-- **Restreaming gives the image of the stop exactly if the streams stay.** A stop that saved its
marker is always reached again on a device without faults. -/
theorem restreamed_image_eq_iff (hretry : o.retry = false) (hwrite : o.canWrite = true)
    (hplain : o.PlainPartition) (hwell : w.files.WellFormed) (hendless : w.device.endless = false)
    (hheader : ScriptHeader.parse lines = .ok (header, used)) (hsize : stop.done ≤ Decimal.limit64)
    (hstop : outcome (interrupted P o stop lines inputs) w = (.ok (), w₁)) :
    (stop.unsaved = false → w.device.faults = Faults.none →
      ∃ w₂, outcome (interrupted P { o with retry := true } ⟨stop.done, false⟩ lines inputs) w₁ =
        (.ok (), w₂)) ∧
    ∀ w₂, outcome (interrupted P { o with retry := true } ⟨stop.done, false⟩ lines inputs) w₁ =
        (.ok (), w₂) →
      (stop.unsaved = true → CollisionFree P (Command.Contents w₁.device w₂.device)) →
      (w₂.device.image = w₁.device.image ↔
        StreamsStay P o lines inputs w (lines.drop used) stop) := by
  obtain ⟨_, place, p, machine, h⟩ := fresh_of_interrupted hretry hwrite hplain hwell hstop
  obtain ⟨_, hheader₁, hcommands⟩ := h.commands
  rw [hheader] at hheader₁
  obtain ⟨rfl, rfl⟩ : header = _ ∧ used = _ := by simpa using hheader₁
  obtain ⟨skip, m, hskips, hprepare, hdevice, hproceeds⟩ := h.resumes hwrite hsize hstop
  rw [← hcommands, hdevice]
  obtain ⟨k, unsaved⟩ := stop
  cases unsaved with
  | false =>
    refine ⟨fun _ hfaults => ?_, fun w₂ hresume _ => ?_⟩
    · obtain ⟨r, hrun, -⟩ := hproceeds.of_healthy (by rw [h.device, hfaults])
      exact ⟨r.world, (interrupted_saved_eq_ok hprepare).mpr ⟨r, hrun, rfl⟩⟩
    · obtain ⟨r, hrun, rfl⟩ := (interrupted_saved_eq_ok hprepare).mp hresume
      have hr := (hproceeds.of_ok hrun).tracks.replays (Nat.le_refl k)
      rw [h.undisturbed_iff ⟨k, false⟩ hsize (Nat.le_refl _) fun i hi => nomatch hi.1]
      exact hr.image_eq_iff
  | true =>
    refine ⟨nofun, fun w₂ hresume hfree => ?_⟩
    obtain ⟨r, hrun, rfl⟩ := (interrupted_saved_eq_ok hprepare).mp hresume
    change outcome (runLines P _ skip 0 (p.commands.take (k + 1))) _ = _ at hrun
    rcases hline : p.commands[k]? with _ | line
    · rw [take_succ_of_none hline] at hrun
      have hnone : instruction? p.commands k = none := by rw [instruction?, hline]
      exact image_eq_iff_of_idle h hsize hnone
        ((hproceeds.of_ok hrun).tracks.replays (Nat.le_succ k))
    · obtain ⟨r₁, hlines, hone⟩ := (runLines_take_succ hline).mp hrun
      exact image_eq_iff_of_unsaved h hsize hendless hskips (hproceeds.of_ok hlines) hline hone
        (hfree rfl)

/-- A block of new data over which another block is copied has its new data again when the session
resumes behind the copy. -/
theorem restreamed_refresh :
    ∃ w₁ w₂, outcome (interrupted .tabled blockOptions ⟨2, false⟩ (refresh "new 2,1,2") refreshInputs)
        (blockWorld [7, 0, 1]) = (.ok (), w₁) ∧
      outcome (interrupted .tabled { blockOptions with retry := true } ⟨2, false⟩ (refresh "new 2,1,2")
        refreshInputs) w₁ = (.ok (), w₂) ∧
      w₁.device.image = Bytes.uniform [7, 7, 1] ∧ w₂.device.image ≠ w₁.device.image := by
  let new : Command := ⟨.new, ["2,1,2"], "new 2,1,2", 0⟩
  have hnew : RefreshesAt "new 2,1,2" new 1 := ⟨rfl, rfl, rfl⟩
  obtain ⟨w₀, hprepare⟩ := prepare_blockWorld [7, 0, 1] refreshInputs
    (header_refresh "new 2,1,2")
  obtain ⟨r₁, r₂, hfirst, himage₁, hlines, himage₂, -⟩ := runLines_refresh hnew (by decide) rfl
    (by decide) (r := { machine := blockMachine [7, 0, 1] ⟨4, 2, 0, 0⟩ refreshInputs,
                        progress := w₀.progress }) rfl
  have hstop₁ := (interrupted_saved_eq_ok (k := 1) hprepare).mpr ⟨r₁, hfirst, rfl⟩
  have hstop₂ := (interrupted_saved_eq_ok (k := 2) hprepare).mpr ⟨r₂, hlines, rfl⟩
  have himageAfter : ∀ {k w'}, outcome (interrupted .tabled blockOptions ⟨k, false⟩
      (refresh "new 2,1,2") refreshInputs) (blockWorld [7, 0, 1]) = (.ok (), w') →
      imageAfter .tabled blockOptions (refresh "new 2,1,2") refreshInputs (blockWorld [7, 0, 1]) k =
        w'.device.image := by
    intro k w' h
    rw [imageAfter, h]
  obtain ⟨hreached, himage⟩ := restreamed_image_eq_iff rfl rfl plain_blockOptions (wellFormed_blockWorld [7, 0, 1]) rfl
    (header_refresh "new 2,1,2") (by decide) hstop₂
  obtain ⟨w₂, hresume⟩ := hreached rfl rfl
  refine ⟨_, w₂, hstop₂, hresume, himage₂, fun hsame => ?_⟩
  -- the first byte of block 1 was streamed, and then something else was copied there
  have hstreams : Streams ((refresh "new 2,1,2").drop 4) 2 0 blockSize := by
    refine ⟨by decide, ⟨new, rfl, rfl, ⟨[⟨1, 1⟩], 1⟩, rfl, ⟨1, 1⟩, List.mem_singleton_self _, by decide,
      by decide⟩, fun l hl hl' => ?_⟩
    obtain rfl : l = 1 := by omega
    rintro ⟨c, hc, hverb, -⟩
    rcases instruction?_refresh hnew hc with ⟨h, -⟩ | ⟨-, rfl⟩
    · cases h
    · cases hverb
  have hbytes := (himage w₂ hresume nofun).mp hsame blockSize 0 hstreams fun h =>
    Bool.false_ne_true h.1
  have hdone : Stop.done ⟨2, false⟩ = 2 := rfl
  rw [hdone, himageAfter hstop₁, himageAfter hstop₂, Run.world, Run.world, himage₁, himage₂,
    Bytes.byte_uniform, Bytes.byte_uniform] at hbytes
  exact absurd hbytes (by decide)

end Session

end BlockUpdate
