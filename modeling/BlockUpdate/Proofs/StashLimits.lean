import BlockUpdate.Proofs.Restreaming
import BlockUpdate.Proofs.ResumeEquivalence

/-!
# The limits of the stash

A session that resumes counts the entries that it finds, which are no more than those that the
stopped session had counted. Its `free` leaves an entry in place, though, and the entry stays
counted.

- `Command.run_of_leavesEntry`: a `free` that leaves its entry succeeds.
- **`Fresh.underway`**: until then a session that resumes is on the way of the history.
- **`resumed_limit_of_leavesEntry`**: a session that resumes runs out of stash only after a `free`
  that left its entry in place.
- `relay`: a script of which a session that resumes runs out of stash so.
-/

namespace BlockUpdate

namespace Command

variable {P : Primitives} {c : Command} {m : Machine}

/-- A `free` that leaves its entry in place succeeds. -/
theorem run_of_leavesEntry (h : c.LeavesEntry m) {place : Place}
    (hsited : m.stash.Sited m.files place) : outcome (c.run P) m = (.ok (), m) := by
  obtain ⟨hverb, hcreated, id, size, hid, -⟩ := h
  rw [run, hverb]
  exact (freeEntry_eq_ok hsited).mpr ⟨id, hid, .inl ⟨hcreated, rfl⟩⟩

end Command

namespace Session

open SessionOptions

variable {P : Primitives} {o : SessionOptions} {place : Place} {lines : List String}
  {inputs : ScriptInputs} {w w₁ w' : World} {header : ScriptHeader} {used total k : Nat}
  {p : Prepared} {machine : Nat → Machine} {stop : Stop}

/-- **A session that resumes stays on the way of the history** as long as no `free` leaves its
entry in place. -/
theorem Fresh.underway (h : Fresh P o lines inputs w header place p total machine)
    (hwrite : o.canWrite = true) (hsize : total ≤ Decimal.limit64) (hstop : stop.done ≤ total)
    (hundisturbed : Undisturbed p.commands machine stop.done)
    (hstopped : outcome (Session.interrupted P o stop lines inputs) w = (.ok (), w₁))
    {q : Prepared} {r : Run} (hr : Reaches P { o with retry := true } lines inputs w₁ k q r) :
    q.commands = p.commands ∧ Skips p.commands stop.lines q.skip ∧ (k ≤ total →
      (∀ j < k, ∀ c m, ExecutesAt P { o with retry := true } lines inputs w₁ j c m →
        ¬ c.LeavesEntry m) →
      Underway .none { o with retry := true } place p.commands machine stop.lines stop.done k
        r.machine) := by
  obtain ⟨r₁, hrun, -, hleft⟩ := h.stopped hsize hstop
  rw [hstopped] at hrun
  obtain rfl : w₁ = r₁.world := congrArg Prod.snd hrun
  obtain ⟨used, hheader, hcommands⟩ := h.commands
  obtain ⟨skip, hskips, hprepare, hunderway⟩ :=
    hleft.prepare (o := { o with retry := true }) rfl hwrite h.history.plain hheader hcommands
  obtain ⟨w₂, hprepared, hlines⟩ := hr
  rw [hprepare] at hprepared
  obtain ⟨hq, rfl⟩ := Prod.ext_iff.mp hprepared
  obtain rfl := Except.ok.inj hq
  refine ⟨rfl, hskips, fun hk hleaves => ?_⟩
  refine (Underway.lines (h.resumption hwrite hsize hstop (Nat.le_refl _) fun _ => hundisturbed)
    hskips hunderway hk fun _ j hj c r' hc hskip hlines' => ?_).of_ok hlines
  exact hleaves j hj c _ ⟨_, r', ⟨r₁.world, hprepare, hlines'⟩, hc, hskip, rfl⟩

/-- **A session that resumes runs out of stash only after a `free` that left its entry in place.** -/
theorem resumed_limit_of_leavesEntry (hretry : o.retry = false) (hwrite : o.canWrite = true)
    (hplain : o.PlainPartition) (hwell : w.files.WellFormed)
    (hsize : lines.length ≤ Decimal.limit64)
    (hheader : ScriptHeader.parse lines = .ok (header, used)) {summary : Summary}
    (hfresh : outcome (runScript P o lines inputs) w = (.ok summary, w'))
    (hdone : stop.done ≤ (lines.drop used).length)
    (hstop : outcome (interrupted P o stop lines inputs) w = (.ok (), w₁))
    (hstays : StreamsStay P o lines inputs w (lines.drop used) ⟨stop.done, false⟩)
    {c : Command} {m m' : Machine} {e : CommandFailure}
    (hexecutes : ExecutesAt P { o with retry := true } lines inputs w₁ k c m)
    (hfailed : outcome (c.run P) m = (.error e, m')) (hlimit : e.IsLimit) :
    ∃ j < k, ∃ c' n, ExecutesAt P { o with retry := true } lines inputs w₁ j c' n ∧
      c'.LeavesEntry n := by
  obtain ⟨_, place, p, machine, h, -⟩ := fresh_of_runScript hretry hwrite hplain hwell hfresh
  obtain ⟨_, hheader₁, hcommands⟩ := h.commands
  rw [hheader] at hheader₁
  obtain ⟨rfl, rfl⟩ : header = _ ∧ used = _ := by simpa using hheader₁
  rw [← hcommands] at hdone hstays
  have htotal := Nat.le_trans h.size_le hsize
  by_contra hnone
  have hundisturbed : Undisturbed p.commands machine stop.done :=
    (h.undisturbed_iff ⟨stop.done, false⟩ htotal hdone fun i hi => nomatch hi.1).mp hstays
  obtain ⟨q, r, hr, hc, hskip, rfl⟩ := hexecutes
  obtain ⟨hq, hskips, hunderway⟩ := h.underway hwrite htotal hdone hundisturbed hstop hr
  rw [hq] at hc
  obtain ⟨line, hline, -⟩ := instruction?_eq_some.mp hc
  obtain ⟨hk, -⟩ := List.getElem?_eq_some_iff.mp hline
  have htracks := (hunderway (Nat.le_of_lt hk) fun j hj c' n hat hleaves =>
    hnone ⟨j, hj, c', n, hat, hleaves⟩).tracks
  have hsited := htracks.work.sited h.history.plain htracks.base
  by_cases hleaves : c.LeavesEntry r.machine
  · rw [Command.run_of_leavesEntry hleaves hsited] at hfailed
    cases congrArg Prod.fst hfailed
  have hsaved : c.verb ≠ .new → stop.lines ≤ k := by
    rcases hskips.cases hc with ⟨hskipped, -⟩ | ⟨-, hsaved⟩
    · rw [hskip] at hskipped
      cases hskipped
    · exact hsaved
  have hresume := h.resumption hwrite htotal hdone (Nat.le_refl _) fun _ => hundisturbed
  rcases htracks.run hresume hk hc hsaved fun _ => hleaves with
    ⟨n, hrun, -⟩ | ⟨-, e', n, hrun, hother⟩
  · rw [hfailed] at hrun
    cases congrArg Prod.fst hrun
  · rw [hfailed] at hrun
    obtain rfl : e = e' := Except.error.inj (congrArg Prod.fst hrun)
    exact hother hlimit

/-! ## Two entries, one after the other -/

open Bytes (uniform)

/-- A script that stashes and frees block 0, and then block 1. It may hold one entry. -/
def relay : List String :=
  ["4", "0", "1", "0",
    "stash c9ac7b0624824f844f6c7f3d50fab9741a8914e878467e8daaedca143a34d90b 2,0,1",
    "free c9ac7b0624824f844f6c7f3d50fab9741a8914e878467e8daaedca143a34d90b",
    "stash ad7facb2586fc6e966c004d7d1d16b024f5805ff7cb47c7a85dabd8b48892ca7 2,1,2",
    "free ad7facb2586fc6e966c004d7d1d16b024f5805ff7cb47c7a85dabd8b48892ca7"]

theorem header_relay : ScriptHeader.parse relay = .ok (⟨4, 0, 1, 0⟩, 4) := by
  rw [relay]
  cbv

/-- What the script makes of a block that is filled with `x`. -/
structure RelaysAt (line : Nat) (keep drop : Command) (b : Nat) (x : UInt8) : Prop where
  kept : instruction? (relay.drop 4) line = some keep
  freed : instruction? (relay.drop 4) (line + 1) = some drop
  keeps : keep.verb = .stash
  frees : drop.verb = .free
  keptName : keep.arg 0 = .ok (Digest.name [x])
  freedName : drop.arg 0 = .ok (Digest.name [x])
  blockSet : keep.blockSet 1 = .ok ⟨[⟨b, 1⟩], 1⟩
  block : BlockSet.pick [⟨b, 1⟩] [7, 0] = [x]
  inside : b < 2
  entry : Stash.validId (Digest.name [x]) = true ∧
    (Stash.temporaryName (Digest.name [x])).utf8ByteSize ≤ FileTree.maxName

theorem relaysAt_zero : RelaysAt 0 ⟨.stash, [Digest.name [7], "2,0,1"], relay.getD 4 "", 0⟩
    ⟨.free, [Digest.name [7]], relay.getD 5 "", 1⟩ 0 7 :=
  ⟨rfl, rfl, rfl, rfl, rfl, rfl, rfl, rfl, by decide, by decide⟩

theorem relaysAt_two : RelaysAt 2 ⟨.stash, [Digest.name [0], "2,1,2"], relay.getD 6 "", 2⟩
    ⟨.free, [Digest.name [0]], relay.getD 7 "", 3⟩ 1 0 :=
  ⟨rfl, rfl, rfl, rfl, rfl, rfl, rfl, rfl, by decide, by decide⟩

/-- The stash of the script when it is empty. -/
structure Relaying (m : Machine) : Prop where
  device : m.device = Device.file (uniform [7, 0])
  header : m.header = ⟨4, 0, 1, 0⟩
  stash : m.stash = ⟨blockOptions.stashDir, true⟩
  live : m.canWrite = true
  work : blockOptions.Workspace m.files ["w"]
  uncounted : m.stashedEntries = 0
  empty : ∀ name, m.files.get? (blockOptions.stashAt ["w"] ++ [name]) = none

theorem relaying_blockMachine (inputs : ScriptInputs) :
    Relaying (blockMachine [7, 0] ⟨4, 0, 1, 0⟩ inputs) where
  device := rfl
  header := rfl
  stash := rfl
  live := rfl
  work := work_blockMachine _ _ _
  uncounted := rfl
  empty := noEntry_blockMachine [7, 0] ⟨4, 0, 1, 0⟩ inputs

namespace RelaysAt

variable {keep drop : Command} {b : Nat} {x : UInt8} {m : Machine} {line : Nat}
  (h : RelaysAt line keep drop b x)

include h

theorem fits : ∀ q ∈ ([⟨b, 1⟩] : List BlockRange), q.stop ≤ ([7, 0] : List UInt8).length := by
  intro q hq
  rw [List.mem_singleton.mp hq]
  exact h.inside

theorem verify : Checksum.verify .tabled (uniform (BlockSet.pick [⟨b, 1⟩] [7, 0])) 1
    (Digest.name [x]) = true := by
  rw [h.block]
  exact (Checksum.verify_uniform rfl).trans (decide_eq_true rfl)

/-- The first of its lines stashes the block. -/
theorem run_keep (hm : Relaying m) : outcome (keep.run .tabled) m =
    (.ok (), m.keeping (blockOptions.stashAt ["w"]) (Digest.name [x]) 1 (uniform [x])) := by
  have hroom : m.HasRoom 1 := by
    rw [Machine.HasRoom, hm.uncounted, hm.header]
    exact ⟨rfl, rfl⟩
  have hnone : ∀ name, m.files.get? (blockOptions.stashAt ["w"] ++ [name]) ≠ some .directory := by
    intro name
    simp [hm.empty]
  have hkeep := Command.stashBlocks_uniform (by rw [hm.device]; exact ⟨rfl, rfl⟩)
    (by rw [hm.device]; rfl : m.device.image = uniform [7, 0]) (by decide) hm.live
    (hm.work.sited plain_blockOptions (by rw [hm.stash])) h.keptName h.blockSet h.fits
    (hm.empty _) hroom ⟨h.entry.1, h.entry.2, hnone _, hnone _⟩ h.verify
  rw [h.block] at hkeep
  rw [Command.run, h.keeps]
  exact hkeep

/-- The second one frees the entry of the first. -/
theorem run_drop (hm : Relaying m) {c : Command} {m₁ : Machine}
    (hm₁ : m₁ = blockOptions.marked ["w"] c
      (m.keeping (blockOptions.stashAt ["w"]) (Digest.name [x]) 1 (uniform [x])))
    (hwork : blockOptions.Workspace m₁.files ["w"]) :
    ∃ m₂, outcome (drop.run .tabled) m₁ = (.ok (), m₂) ∧
      Relaying (blockOptions.marked ["w"] drop m₂) := by
  have hget : ∀ name, m₁.files.get? (blockOptions.stashAt ["w"] ++ [name]) =
      if name = Digest.name [x] then some (.file (uniform [x])) else none := by
    intro name
    rw [hm₁, get?_stash_marked]
    show (Stash.stored m.files _ _ _).get? _ = _
    rw [Stash.get?_stored, hm.empty]
    simp
  rw [marked_eq] at hm₁
  have hsited := hwork.sited plain_blockOptions (s := m₁.stash) (by rw [hm₁]; exact congrArg _ hm.stash)
  have hfile : m₁.files.get? (blockOptions.stashAt ["w"] ++ [Digest.name [x]]) =
      some (.file (uniform [x])) := by rw [hget, if_pos rfl]
  have hentry : Stash.Entry (Digest.name [x]) :=
    ⟨h.entry.1, Nat.le_trans (Stash.utf8ByteSize_le_temporaryName _) h.entry.2⟩
  have hdir : m₁.files.get? (blockOptions.stashAt ["w"] ++ [Digest.name [x]]) ≠ some .directory := by
    simp [hfile]
  let m₂ := m₁.dropped (blockOptions.stashAt ["w"]) (Digest.name [x]) (uniform [x]).size
  have hrun : outcome (drop.run .tabled) m₁ = (.ok (), m₂) := by
    rw [Command.run, h.frees]
    refine (Command.freeEntry_eq_ok hsited).mpr ⟨_, h.freedName, .inr ⟨?_, hentry, .inr
      ⟨_, (Stash.entrySize?_eq_some hsited).mpr ⟨hentry, .inl ⟨_, hfile, rfl⟩⟩, hdir, rfl⟩⟩⟩
    rw [hm₁]
    exact congrArg Stash.created hm.stash
  have hwithin := Command.run_within (by rw [hm₁]; exact hm.live) hsited hrun
  refine ⟨m₂, hrun, ?_⟩
  have hempty : ∀ name, (blockOptions.marked ["w"] drop m₂).files.get?
      (blockOptions.stashAt ["w"] ++ [name]) = none := by
    intro name
    rw [get?_stash_marked]
    show (m₁.files.removed _).get? _ = none
    rw [FileTree.get?_removed _ hdir, hget]
    simp only [List.append_cancel_left_eq, List.cons.injEq, and_true]
    split_ifs <;> rfl
  have hwork₂ := work_marked (c := drop) (hwork.congr hwithin.directories)
  rw [marked_eq] at hempty hwork₂ ⊢
  refine ⟨?_, ?_, ?_, ?_, hwork₂, ?_, hempty⟩ <;> simp only [m₂, Machine.dropped, hm₁]
  · exact hm.device
  · exact hm.header
  · exact hm.stash
  · exact hm.live
  · exact congrArg (· + 1 - 1) hm.uncounted

end RelaysAt

/-- **A pair of lines** leaves the stash empty. -/
theorem RelaysAt.runLines {line : Nat} {keep drop : Command} {b : Nat} {x : UInt8}
    (h : RelaysAt line keep drop b x) {r₀ r : Run} (hr : Relaying r.machine)
    (hlines : outcome (runLines .tabled blockOptions RetrySkip.none 0 ((relay.drop 4).take line)) r₀ =
      (.ok (), r)) :
    ∃ r₁ r₂, outcome (Session.runLines .tabled blockOptions RetrySkip.none 0
        ((relay.drop 4).take (line + 1))) r₀ = (.ok (), r₁) ∧
      r₁.machine = blockOptions.marked ["w"] keep
        (r.machine.keeping (blockOptions.stashAt ["w"]) (Digest.name [x]) 1 (uniform [x])) ∧
      blockOptions.Workspace r₁.machine.files ["w"] ∧
      outcome (Session.runLines .tabled blockOptions RetrySkip.none 0
        ((relay.drop 4).take (line + 2))) r₀ = (.ok (), r₂) ∧ Relaying r₂.machine := by
  have hkeep := h.run_keep hr
  have hwithin := Command.run_within hr.live
    (hr.work.sited plain_blockOptions (by rw [hr.stash])) hkeep
  have hwork := hr.work.congr hwithin.directories
  obtain ⟨r₁, hlines₁, hmachine₁⟩ := runLines_take_of_run h.kept hlines (not_skips_none keep)
    plain_blockOptions rfl hwork hkeep
  have hwork₁ : blockOptions.Workspace r₁.machine.files ["w"] := by
    rw [hmachine₁]
    exact work_marked hwork
  obtain ⟨m₂, hdrop, hm₂⟩ := h.run_drop hr hmachine₁ hwork₁
  have hlive₁ : r₁.machine.canWrite = true := by
    rw [hmachine₁, marked_eq]
    exact hr.live
  have hwithin₂ := Command.run_within hlive₁ (hwork₁.sited plain_blockOptions
    (by rw [hmachine₁, marked_eq]; exact congrArg Stash.base hr.stash)) hdrop
  obtain ⟨r₂, hlines₂, hmachine₂⟩ := runLines_take_of_run h.freed hlines₁ (not_skips_none drop)
    plain_blockOptions rfl (hwork₁.congr hwithin₂.directories) hdrop
  exact ⟨r₁, r₂, hlines₁, hmachine₁, hwork₁, hlines₂, by rw [hmachine₂]; exact hm₂⟩

/-- The script succeeds, and can be stopped behind its first line. -/
theorem runScript_relay : ∃ summary w' w₁,
    outcome (runScript .tabled blockOptions relay {}) (blockWorld [7, 0]) = (.ok summary, w') ∧
    outcome (interrupted .tabled blockOptions ⟨1, false⟩ relay {}) (blockWorld [7, 0]) =
      (.ok (), w₁) ∧
    w₁.device = Device.file (uniform [7, 0]) ∧ blockOptions.Workspace w₁.files ["w"] ∧
    (∀ name, w₁.files.get? (blockOptions.stashAt ["w"] ++ [name]) =
      if name = Digest.name [7] then some (.file (uniform [7])) else none) ∧
    MarkerSkips blockOptions (relay.drop 4) w₁.files 1 := by
  obtain ⟨w₀, hprepare⟩ := prepare_blockWorld [7, 0] {} header_relay
  have hstart := relaying_blockMachine {}
  let r₀ : Run := { machine := blockMachine [7, 0] ⟨4, 0, 1, 0⟩ {}, progress := w₀.progress }
  obtain ⟨r₁, r₂, hlines₁, hmachine₁, hwork₁, hlines₂, hr₂⟩ :=
    relaysAt_zero.runLines (r := r₀) hstart (rfl : _ = (Except.ok (), r₀))
  obtain ⟨-, r₄, -, -, -, hlines₄, hr₄⟩ := relaysAt_two.runLines hr₂ hlines₂
  obtain ⟨summary, w', hrun, -⟩ :=
    runScript_of_runLines rfl plain_blockOptions hprepare hlines₄ hr₄.work rfl
  have hstop := (interrupted_saved_eq_ok (k := 1) hprepare).mpr ⟨r₁, hlines₁, rfl⟩
  refine ⟨summary, w', r₁.world, hrun, hstop, ?_, hwork₁, fun name => ?_, ?_⟩
  · show r₁.machine.device = _
    rw [hmachine₁, marked_eq]
    rfl
  · show r₁.machine.files.get? _ = _
    rw [hmachine₁, get?_stash_marked]
    show (Stash.stored _ _ _ _).get? _ = _
    rw [Stash.get?_stored, hstart.empty]
    simp
  · show MarkerSkips _ _ r₁.machine.files 1
    rw [hmachine₁]
    have hwithin := Command.run_within hstart.live
      (hstart.work.sited plain_blockOptions (by rw [hstart.stash])) (relaysAt_zero.run_keep hstart)
    exact markerSkips_marked plain_blockOptions (hstart.work.congr hwithin.directories) (by decide)
      relaysAt_zero.kept (by decide)

/-- A session that resumes behind the first line leaves its entry in place, so that there is no room
for the second one. -/
theorem resumed_relay {w : World} (hdevice : w.device = Device.file (uniform [7, 0]))
    (hwork : blockOptions.Workspace w.files ["w"])
    (hget : ∀ name, w.files.get? (blockOptions.stashAt ["w"] ++ [name]) =
      if name = Digest.name [7] then some (.file (uniform [7])) else none)
    (hmarks : MarkerSkips blockOptions (relay.drop 4) w.files 1) :
    ∃ c m e m', ExecutesAt .tabled { blockOptions with retry := true } relay {} w 2 c m ∧
      outcome (c.run .tabled) m = (.error e, m') ∧ e.IsLimit := by
  obtain ⟨marker, hload, hskips⟩ := hmarks
  let o : SessionOptions := { blockOptions with retry := true }
  have hplain : o.PlainPartition := plain_blockOptions
  have hwork : o.Workspace w.files ["w"] := workspace_retrying hwork
  have hprepare : outcome (prepare o relay {}) w = _ :=
    prepare_resumed rfl rfl hplain hwork header_relay hload
  let m₀ := resumedMachine o ["w"] ⟨4, 0, 1, 0⟩ {} w
  let r₀ : Run := { machine := m₀, progress := w.progress }
  have hsited : m₀.stash.Sited m₀.files (o.stashAt ["w"]) := hwork.sited hplain rfl
  -- the first line is skipped
  have hskipped := runLines_take_of_skips (P := .tabled) (o := o) (r := r₀) relaysAt_zero.kept
    (rfl : _ = (Except.ok (), r₀)) ((hskips 0 _ relaysAt_zero.kept (by decide)).mpr Nat.one_pos)
  have hnext : ∀ {k c}, instruction? (relay.drop 4) k = some c → c.verb ≠ .new → 1 ≤ k →
      (RetrySkip.resolve marker (relay.drop 4)).skips c = false := by
    intro k c hc hverb hk
    rw [Bool.eq_false_iff]
    exact fun hskip => absurd ((hskips k c hc hverb).mp hskip) (Nat.not_lt.mpr hk)
  -- the second one leaves the entry in place
  have hfile := hget (Digest.name [7])
  rw [if_pos rfl] at hfile
  have hleaves : Command.LeavesEntry ⟨.free, [Digest.name [7]], relay.getD 5 "", 1⟩ m₀ :=
    ⟨rfl, rfl, Digest.name [7], _, rfl, (Stash.entrySize?_eq_some hsited).mpr
      ⟨⟨by decide, by decide⟩, .inl ⟨_, hfile, rfl⟩⟩⟩
  obtain ⟨r₂, hlines, hmachine⟩ := runLines_take_of_run (o := o) relaysAt_zero.freed hskipped
    (hnext relaysAt_zero.freed (by decide) (Nat.le_refl 1)) hplain rfl hwork
    (Command.run_of_leavesEntry (P := .tabled) hleaves hsited)
  have hwork₂ : o.Workspace r₂.machine.files ["w"] := by
    rw [hmachine]
    exact work_marked hwork
  -- the third one finds that it is counted
  have hcounted : 1 ≤ (Stash.held w.files (o.stashAt ["w"])).length :=
    List.length_pos_of_mem (Stash.mem_held.mpr
      ⟨FileTree.mem_of_get? (by simp) hfile, (by decide : Stash.validId (Digest.name [7]) = true)⟩)
  have hfull : Machine.exceeds (r₂.machine.stashedEntries + 1) r₂.machine.header.maxStashEntries =
      true := by
    rw [hmachine, marked_eq]
    show Machine.exceeds (0 + (Stash.held w.files (o.stashAt ["w"])).length + 1) 1 = true
    rw [Machine.exceeds, Bool.and_eq_true, decide_eq_true_eq]
    exact ⟨rfl, by omega⟩
  have hfree : r₂.machine.files.get? (o.stashAt ["w"] ++ [Digest.name [0]]) = none := by
    rw [hmachine, get?_stash_marked]
    exact (hget _).trans (if_neg (by decide))
  have hdevice₂ : r₂.machine.device = Device.file (uniform [7, 0]) := by
    rw [hmachine, marked_eq]
    exact hdevice
  obtain ⟨e, m', hfailed, hlimit⟩ := Command.stashBlocks_full (P := .tabled)
    (by rw [hdevice₂]; exact ⟨rfl, rfl⟩)
    (by rw [hdevice₂]; rfl : r₂.machine.device.image = uniform [7, 0]) (by decide)
    (hwork₂.sited hplain (by rw [hmachine, marked_eq]; rfl)) relaysAt_two.keptName
    relaysAt_two.blockSet relaysAt_two.fits hfree hfull relaysAt_two.verify
  exact ⟨_, r₂.machine, e, m', ⟨_, r₂, ⟨w, hprepare, hlines⟩, relaysAt_two.kept,
    hnext relaysAt_two.kept (by decide) (by decide), rfl⟩, hfailed, hlimit⟩

/-- The script has room for its entries, but a session that resumes it does not. -/
theorem relay_runs_out : ¬ ∀ w₁ k c m e m',
    outcome (interrupted .tabled blockOptions ⟨1, false⟩ relay {}) (blockWorld [7, 0]) =
      (.ok (), w₁) →
    (∃ summary w', outcome (runScript .tabled blockOptions relay {}) (blockWorld [7, 0]) =
      (.ok summary, w')) →
    ExecutesAt .tabled { blockOptions with retry := true } relay {} w₁ k c m →
    outcome (c.run .tabled) m = (.error e, m') → ¬ e.IsLimit := by
  intro hnever
  obtain ⟨summary, w', w₁, hrun, hstop, hdevice, hwork, hget, hmarks⟩ := runScript_relay
  obtain ⟨c, m, e, m', hexecutes, hfailed, hlimit⟩ := resumed_relay hdevice hwork hget hmarks
  exact hnever w₁ 2 c m e m' hstop ⟨summary, w', hrun⟩ hexecutes hfailed hlimit

/-- It is the entry that the second line left in place. -/
theorem relay_leavesEntry : ∃ w₁, outcome (interrupted .tabled blockOptions ⟨1, false⟩ relay {})
      (blockWorld [7, 0]) = (.ok (), w₁) ∧
    ∃ j < 2, ∃ c n, ExecutesAt .tabled { blockOptions with retry := true } relay {} w₁ j c n ∧
      c.LeavesEntry n := by
  obtain ⟨summary, w', w₁, hrun, hstop, hdevice, hwork, hget, hmarks⟩ := runScript_relay
  obtain ⟨c, m, e, m', hexecutes, hfailed, hlimit⟩ := resumed_relay hdevice hwork hget hmarks
  refine ⟨w₁, hstop, resumed_limit_of_leavesEntry rfl rfl plain_blockOptions
    (wellFormed_blockWorld [7, 0]) (by decide) header_relay hrun (by decide) hstop ?_ hexecutes
    hfailed hlimit⟩
  -- nothing is streamed
  rintro i j ⟨-, ⟨c, hc, hverb, -⟩, -⟩
  obtain ⟨line, hline, hparse, -⟩ := instruction?_eq_some.mp hc
  rcases j with _ | _ | _ | _ | j
  · cases Option.some.inj (hc.symm.trans relaysAt_zero.kept)
    cases hverb
  · cases Option.some.inj (hc.symm.trans relaysAt_zero.freed)
    cases hverb
  · cases Option.some.inj (hc.symm.trans relaysAt_two.kept)
    cases hverb
  · cases Option.some.inj (hc.symm.trans relaysAt_two.freed)
    cases hverb
  · cases hline

end Session

end BlockUpdate
