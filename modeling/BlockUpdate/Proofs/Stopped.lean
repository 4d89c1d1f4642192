import BlockUpdate.Proofs.Accounts
import BlockUpdate.Proofs.Resume

/-!
# What a stopped session leaves

A session that stops leaves a device, a stash and a marker, and the next session finds no more than
these.

- `Session.Stopped`: the world that a session left that stopped on the way along a history.
- **`Stopped.of_fresh`**: how a fresh session leaves it.
- **`Stopped.of_tracks`**: how a session leaves it that resumed.
- **`Stopped.prepare`**: a session that resumes begins on the way to where the stopped one was.
-/

namespace BlockUpdate

theorem Stop.done_bounds (stop : Stop) : stop.lines ≤ stop.done ∧ stop.done ≤ stop.lines + 1 := by
  rw [done]
  split_ifs <;> omega

namespace Session

open SessionOptions

variable {P : Primitives} {o : SessionOptions} {place : Place} {commands : List String}
  {count : Nat} {machine : Nat → Machine} {slack : Slack} {saved goal k : Nat}

/-- The machine at the start of a session that resumes. -/
def resumedMachine (o : SessionOptions) (place : Place) (header : ScriptHeader)
    (inputs : ScriptInputs) (w : World) : Machine :=
  (blankMachine o header false inputs w).counted (o.stashAt place)

/-- The world that a session left. The marker of a line before line `saved` was its last, and its
commands took it to line `goal`. -/
structure Stopped (slack : Slack) (o : SessionOptions) (place : Place) (commands : List String)
    (machine : Nat → Machine) (header : ScriptHeader) (inputs : ScriptInputs) (saved goal : Nat)
    (w : World) : Prop where
  work : o.Workspace w.files place
  marks : MarkerSkips o commands w.files saved
  replays : Replaying slack o place commands machine goal 0
    (resumedMachine o place header inputs w)

/-- A history of a session that took its inputs from the beginning. -/
def Begins (o : SessionOptions) (machine : Nat → Machine) (header : ScriptHeader)
    (inputs : ScriptInputs) : Prop :=
  ∃ w, machine 0 = blankMachine o header true inputs w

variable {header : ScriptHeader} {inputs : ScriptInputs} {w : World}

/-- What is left must be like a machine of the history, apart from what new data was written to. -/
theorem Stopped.of_world (h : History P o place commands count machine)
    (hbegins : Begins o machine header inputs) (hgoal : goal ≤ count)
    (hwork : o.Workspace w.files place) (hmarks : MarkerSkips o commands w.files saved)
    (hentries : ∀ name, w.files.get? (o.stashAt place ++ [name]) =
        (machine goal).files.get? (o.stashAt place ++ [name]) ∨
      (machine goal).files.get? (o.stashAt place ++ [name]) = none ∧
        ∃ data, w.files.get? (o.stashAt place ++ [name]) = some (.file data))
    (hslack : slack.Holds (o.stashAt place) (machine goal) (resumedMachine o place header inputs w))
    (hfaults : w.device.faults = (machine goal).device.faults)
    (hendless : w.device.endless = (machine goal).device.endless)
    (hdiscards : w.device.discards = (machine goal).device.discards)
    (hsize : w.device.image.size = (machine goal).device.image.size)
    (hkept : ∀ i, (∀ j < goal, ¬ NewAt commands j i) →
      w.device.image.byte i = (machine goal).device.image.byte i) :
    Stopped slack o place commands machine header inputs saved goal w := by
  obtain ⟨w₀, hstart⟩ := hbegins
  have hwithin := h.within_zero hgoal
  refine ⟨hwork, hmarks, ?_, ?_, hfaults, hendless, hdiscards, hsize, hkept, fun i j hs => ?_⟩
  · refine {
      reads := .refl _
      live := h.live_at hgoal
      live' := rfl
      header := ?_
      allowFileErase := ?_
      patchData := ?_
      newData := rfl
      sited := h.sited_at hgoal
      sited' := hwork.sited h.plain rfl
      resumed := rfl
      entries := hentries
      slack := ?_ }
    · rw [hwithin.header, hstart]
      rfl
    · rw [hwithin.allowFileErase, hstart]
      rfl
    · rw [hwithin.patchData, hstart]
      rfl
    · cases slack <;> exact hslack
  · rw [hstart]
    rfl
  · exact absurd hs.1 (Nat.not_lt_zero j)

/-- Nothing limits the stash of a session that resumes, and it holds what is known. -/
theorem holds_known {entry : String → Bytes → Prop}
    {unique : ∀ id a b, entry id a → entry id b → a = b} (hlimits : header.Unlimited)
    (hknown : ∀ name data, w.files.get? (o.stashAt place ++ [name]) = some (.file data) →
      entry name data) {m : Machine} :
    (Slack.known entry unique).Holds (o.stashAt place) m (resumedMachine o place header inputs w) :=
  ⟨hlimits, hknown⟩

/-- A session that resumes counts no more than is counted. -/
theorem holds_none {known : String → Bytes → Prop} {m n : Machine}
    (h : n.Accounts known (o.stashAt place)) (hbase : n.stash.base = o.stashDir)
    (hfiles : w.files = n.files) (hentries : n.stashedEntries = m.stashedEntries)
    (hblocks : n.stashedBlocks = m.stashedBlocks)
    (hsame : ∀ name, n.files.get? (o.stashAt place ++ [name]) =
      m.files.get? (o.stashAt place ++ [name])) :
    Slack.none.Holds (o.stashAt place) m (resumedMachine o place header inputs w) := by
  refine ⟨⟨?_, ?_⟩, fun name => ?_⟩
  · show 0 + (Stash.held w.files (o.stashAt place)).length ≤ m.stashedEntries
    rw [Nat.zero_add, hfiles, ← hentries]
    exact h.entries
  · show 0 + Stash.heldBlocks ⟨o.stashDir, false⟩ w.files (o.stashAt place) ≤ m.stashedBlocks
    rw [Nat.zero_add, hfiles, ← hblocks, Stash.heldBlocks_of_base (s := n.stash) hbase.symm]
    exact h.blocks
  · show w.files.get? _ = _
    rw [hfiles, hsame]

/-! ## The machine of a fresh session that stops -/

/-- A fresh session stops in a machine that differs by no more than the marker from one of its
history. -/
structure AtStop (known : String → Bytes → Prop) (o : SessionOptions) (place : Place)
    (commands : List String) (machine : Nat → Machine) (stop : Stop) (n : Machine) : Prop where
  work : o.Workspace n.files place
  base : n.stash.base = o.stashDir
  marks : MarkerSkips o commands n.files stop.lines
  device : n.device = (machine stop.done).device
  same : ∀ name, n.files.get? (o.stashAt place ++ [name]) =
    (machine stop.done).files.get? (o.stashAt place ++ [name])
  entries : n.stashedEntries = (machine stop.done).stashedEntries
  blocks : n.stashedBlocks = (machine stop.done).stashedBlocks
  accounts : n.Accounts known (o.stashAt place)

section AtStop

variable {known : String → Bytes → Prop} {stop : Stop} {n : Machine}
  (h : History P o place commands count machine)

include h

/-- It stops between two commands. -/
theorem atStop_saved (hsize : count ≤ Decimal.limit64)
    (hknown : ∀ k c id data, k < count → instruction? commands k = some c →
      c.Stashes P (machine k) id data → known id data) (hk : k ≤ count) :
    AtStop known o place commands machine ⟨k, false⟩ (machine k) :=
  ⟨h.work_at hk, h.base_at hk, h.markerSkips hsize hk, rfl, fun _ => rfl, rfl, rfl,
    h.accounts hknown hk⟩

/-- It stops before it saves a marker. -/
theorem atStop_unsaved (hsize : count ≤ Decimal.limit64)
    (hknown : ∀ k c id data, k < count → instruction? commands k = some c →
      c.Stashes P (machine k) id data → known id data) (hk : k < count) {c : Command}
    (hc : instruction? commands k = some c)
    (hrun : outcome (c.run P) (machine k) = (.ok (), n)) :
    AtStop known o place commands machine ⟨k, true⟩ n := by
  have hle := Nat.le_of_lt hk
  have hwithin := Command.run_within (h.live_at hle) (h.sited_at hle) hrun
  have hwork := (h.work_at hle).congr hwithin.directories
  have hmachine : machine (k + 1) = o.marked place c n := by
    obtain ⟨m₁, hrun₁, hmachine⟩ := h.step_of_instruction? hk hc
    rw [hrun] at hrun₁
    obtain rfl : n = m₁ := congrArg Prod.snd hrun₁
    exact hmachine
  have hmarks := (h.markerSkips hsize hle).congr h.plain (h.work_at hle) hwork <|
    hwithin.elsewhere _ fun ⟨name, hname⟩ => o.stashAt_append_ne_markerAt place name hname.symm
  have haccounts := Command.run_accounts (h.live_at hle) (h.sited_at hle) (h.accounts hknown hle)
    (fun id data => hknown k c id data hk hc) hrun
  refine ⟨hwork, hwithin.stash ▸ h.base_at hle, hmarks, ?_, fun name => ?_, ?_, ?_, haccounts⟩
  · show _ = (machine (k + 1)).device
    rw [hmachine, marked_eq]
  · show _ = (machine (k + 1)).files.get? _
    rw [hmachine]
    exact (get?_stash_marked name).symm
  · show _ = (machine (k + 1)).stashedEntries
    rw [hmachine, marked_eq]
  · show _ = (machine (k + 1)).stashedBlocks
    rw [hmachine, marked_eq]

/-- It stops at a line without a command. -/
theorem atStop_idle (hsize : count ≤ Decimal.limit64)
    (hknown : ∀ k c id data, k < count → instruction? commands k = some c →
      c.Stashes P (machine k) id data → known id data) (hk : k < count)
    (hc : instruction? commands k = none) :
    AtStop known o place commands machine ⟨k, true⟩ (machine k) := by
  have hn := atStop_saved h hsize hknown (Nat.le_of_lt hk)
  have hmachine : machine (Stop.done ⟨k, true⟩) = machine k := h.step_of_none hk hc
  refine { hn with
    device := ?_
    same := ?_
    entries := ?_
    blocks := ?_ } <;> rw [hmachine]
  exact hn.same

/-- **What a fresh session leaves** is enough to go on. -/
theorem AtStop.stopped (hn : AtStop known o place commands machine stop n)
    (hbegins : Begins o machine header inputs) (hstop : stop.done ≤ count)
    (hdevice : w.device = n.device) (hfiles : w.files = n.files)
    (hslack : slack.Holds (o.stashAt place) (machine stop.done)
      (resumedMachine o place header inputs w)) :
    Stopped slack o place commands machine header inputs stop.lines stop.done w := by
  rw [hn.device] at hdevice
  refine .of_world h hbegins hstop ?_ ?_ (fun name => .inl ?_) hslack ?_ ?_ ?_ ?_ fun i _ => ?_
  · rw [hfiles]
    exact hn.work
  · rw [hfiles]
    exact hn.marks
  · rw [hfiles, hn.same]
  all_goals rw [hdevice]

end AtStop

/-! ## Fresh sessions that stop -/

/-- **A fresh session stops where it is told to**, in a machine like that of its history. -/
theorem runUntil_fresh (h : History P o place commands count machine)
    (hsize : count ≤ Decimal.limit64) {known : String → Bytes → Prop}
    (hknown : ∀ k c id data, k < count → instruction? commands k = some c →
      c.Stashes P (machine k) id data → known id data) {stop : Stop} (hstop : stop.done ≤ count)
    {r r₁ : Run}
    (hlines : outcome (runLines P o RetrySkip.none 0 (commands.take stop.lines)) r = (.ok (), r₁))
    (hmachine : r₁.machine = machine stop.lines) :
    ∃ r', outcome (runUntil P o RetrySkip.none commands stop) r = (.ok (), r') ∧
      AtStop known o place commands machine stop r'.machine := by
  obtain ⟨k, unsaved⟩ := stop
  rw [runUntil, outcome_bind_of_ok hlines]
  cases unsaved with
  | false =>
    refine ⟨r₁, rfl, ?_⟩
    rw [hmachine]
    exact atStop_saved h hsize hknown hstop
  | true =>
    have hk : k < count := hstop
    rcases hc : instruction? commands k with _ | c
    · refine ⟨r₁, ?_, ?_⟩
      · simp only [if_true]
        rcases hline : commands[k]? with _ | line
        · rfl
        · exact runUnsaved_idle hline hc fun e => h.readable k hk line e hline
      · rw [hmachine]
        exact atStop_idle h hsize hknown hk hc
    · obtain ⟨line, hline, -⟩ := instruction?_eq_some.mp hc
      obtain ⟨m₁, hrun, -⟩ := h.step_of_instruction? hk hc
      have hrun₁ := hrun
      rw [← hmachine] at hrun₁
      obtain ⟨r', hunsaved, hleft⟩ :=
        (runUnsaved_eq_ok hline hc (not_skips_none c)).mpr hrun₁
      refine ⟨r', ?_, ?_⟩
      · simp only [if_true]
        rw [hline]
        exact hunsaved
      · rw [hleft]
        exact atStop_unsaved h hsize hknown hk hc hrun

/-- A fresh session that stopped could have saved the marker. -/
theorem runLines_of_runUntil (hwrite : o.canWrite = true) {stop : Stop}
    (h : History P o place commands stop.lines machine) {r r₁ r' : Run}
    (hlines : outcome (runLines P o RetrySkip.none 0 (commands.take stop.lines)) r = (.ok (), r₁))
    (hmachine : r₁.machine = machine stop.lines)
    (huntil : outcome (runUntil P o RetrySkip.none commands stop) r = (.ok (), r')) :
    ∃ r₂, outcome (runLines P o RetrySkip.none 0 (commands.take stop.done)) r = (.ok (), r₂) := by
  obtain ⟨k, unsaved⟩ := stop
  cases unsaved with
  | false => exact ⟨r₁, hlines⟩
  | true =>
    show ∃ r₂, outcome (runLines P o RetrySkip.none 0 (commands.take (k + 1))) r = (.ok (), r₂)
    rw [runUntil, outcome_bind_of_ok hlines] at huntil
    simp only [if_true] at huntil
    rcases hline : commands[k]? with _ | line
    · rw [take_succ_of_none hline]
      exact ⟨r₁, hlines⟩
    rw [hline] at huntil
    have hone : ∃ r₂, outcome (runLine P o RetrySkip.none k line) r₁ = (.ok (), r₂) := by
      rcases hc : instruction? commands k with _ | c
      · refine ⟨r₁, runLine_idle hline hc fun e he => ?_⟩
        simp only [runUnsaved, he] at huntil
        cases congrArg Prod.fst huntil
      · have hrun := (runUnsaved_eq_ok hline hc (not_skips_none c)).mp
          ⟨r', huntil, rfl⟩
        have hle := Nat.le_refl k
        have hwithin := Command.run_within (hmachine ▸ h.live_at hle) (hmachine ▸ h.sited_at hle) hrun
        have hwork : o.Workspace r'.machine.files place :=
          (hmachine ▸ h.work_at hle : o.Workspace r₁.machine.files place).congr hwithin.directories
        obtain ⟨r₂, hcommand, -⟩ := runCommand_executed hrun
          ((saves_iff h.plain hwrite hwork).mpr (marked_eq o place c _).symm)
        refine ⟨r₂, ?_⟩
        rw [runLine_instruction hline hc, if_neg (by rw [not_skips_none]; exact Bool.false_ne_true),
          hcommand]
    obtain ⟨r₂, hone⟩ := hone
    exact ⟨r₂, (runLines_take_succ hline).mpr ⟨r₁, hlines, hone⟩⟩

/-- The world that a run leaves. -/
def Run.world (r : Run) : World :=
  { device := r.machine.device, files := r.machine.files, progress := r.progress }

/-- A session that stops leaves what it had when it stopped. -/
theorem interrupted_eq_ok {stop : Stop} {lines : List String} {w' : World} :
    outcome (interrupted P o stop lines inputs) w = (.ok (), w') ↔
      ∃ p w₁ r, outcome (prepare o lines inputs) w = (.ok p, w₁) ∧
        outcome (runUntil P o p.skip p.commands stop)
          { machine := p.machine, progress := w₁.progress } = (.ok (), r) ∧ w' = r.world := by
  rw [interrupted, outcome_bind_eq_ok]
  refine exists_congr fun p => exists_congr fun w₁ => ?_
  rw [exists_and_left]
  refine and_congr_right fun _ => ?_
  rw [outcome_bind, outcome_onMachine]
  rcases outcome (runUntil P o p.skip p.commands stop)
    { machine := p.machine, progress := w₁.progress } with ⟨e | ⟨⟩, r⟩
  · exact ⟨nofun, fun ⟨_, h, _⟩ => nomatch h⟩
  · exact ⟨fun h => ⟨r, rfl, (congrArg Prod.snd h).symm⟩, fun ⟨r', h, hw⟩ => by
      obtain rfl : r = r' := congrArg Prod.snd h
      rw [hw]
      rfl⟩

/-! ## Sessions with a history -/

/-- A fresh session that ran some lines, and its history. -/
structure Fresh (P : Primitives) (o : SessionOptions) (lines : List String) (inputs : ScriptInputs)
    (w : World) (header : ScriptHeader) (place : Place) (p : Prepared) (count : Nat)
    (machine : Nat → Machine) : Prop where
  history : History P o place p.commands count machine
  begins : Begins o machine header inputs
  device : (machine 0).device = w.device
  skip : p.skip = RetrySkip.none
  commands : ∃ used, ScriptHeader.parse lines = .ok (header, used) ∧ p.commands = lines.drop used
  reach : ∀ k ≤ count, ∃ r, Reaches P o lines inputs w k p r ∧ r.machine = machine k

section Fresh

variable {lines : List String} {p : Prepared} {stop : Stop} {w' : World}

/-- **Every fresh session that runs some lines has a history.** -/
theorem exists_fresh (hretry : o.retry = false) (hwrite : o.canWrite = true)
    (hplain : o.PlainPartition) (hwell : w.files.WellFormed)
    (hprepare : outcome (prepare o lines inputs) w = (.ok p, w')) {r : Run}
    (hrun : outcome (runLines P o p.skip 0 (p.commands.take count))
      { machine := p.machine, progress := w'.progress } = (.ok (), r)) :
    ∃ header place machine, Fresh P o lines inputs w header place p count machine ∧
      p.machine = machine 0 := by
  obtain ⟨place, machine, h, hmachine, hskip, ⟨header, used, hheader, hcommands, hstart, hdevice⟩,
    hreach⟩ := History.of_fresh hretry hwrite hplain hwell hprepare hrun
  exact ⟨header, place, machine, ⟨h, ⟨w', hstart⟩, by rw [hstart]; exact hdevice, hskip,
    ⟨used, hheader, hcommands⟩, hreach⟩, hmachine⟩

/-- The commands of the history are those that the session executes. -/
theorem Fresh.executes (h : Fresh P o lines inputs w header place p count machine)
    (hk : k < count) {c : Command} (hc : instruction? p.commands k = some c) :
    ExecutesAt P o lines inputs w k c (machine k) := by
  obtain ⟨r, hr, hmachine⟩ := h.reach k (Nat.le_of_lt hk)
  exact ⟨p, r, hr, hc, by rw [h.skip]; rfl, hmachine⟩

theorem Fresh.size_le (h : Fresh P o lines inputs w header place p count machine) :
    p.commands.length ≤ lines.length := by
  obtain ⟨used, -, hcommands⟩ := h.commands
  rw [hcommands, List.length_drop]
  omega

/-- **A fresh session that stops** leaves a world like that of its history. -/
theorem Fresh.interrupted (h : Fresh P o lines inputs w header place p count machine)
    (hsize : count ≤ Decimal.limit64) {known : String → Bytes → Prop}
    (hknown : ∀ k c id data, k < count → instruction? p.commands k = some c →
      c.Stashes P (machine k) id data → known id data) (hstop : stop.done ≤ count) :
    ∃ r : Run, outcome (interrupted P o stop lines inputs) w = (.ok (), r.world) ∧
      AtStop known o place p.commands machine stop r.machine := by
  obtain ⟨hlines, -⟩ := stop.done_bounds
  obtain ⟨r₁, ⟨w₁, hprepare, hrun⟩, hmachine⟩ := h.reach stop.lines (Nat.le_trans hlines hstop)
  rw [h.skip] at hrun
  obtain ⟨r, huntil, hstopped⟩ := runUntil_fresh h.history hsize hknown hstop hrun hmachine
  exact ⟨r, interrupted_eq_ok.mpr ⟨p, w₁, r, hprepare, by rw [h.skip, huntil], rfl⟩, hstopped⟩

/-- **A fresh session that stopped has a history** up to where it did. -/
theorem fresh_of_interrupted (hretry : o.retry = false) (hwrite : o.canWrite = true)
    (hplain : o.PlainPartition) (hwell : w.files.WellFormed)
    (hstop : outcome (Session.interrupted P o stop lines inputs) w = (.ok (), w')) :
    ∃ header place p machine, Fresh P o lines inputs w header place p stop.done machine := by
  obtain ⟨p, w₁, r, hprepare, huntil, -⟩ := interrupted_eq_ok.mp hstop
  obtain ⟨r₁, hlines⟩ : ∃ r₁, outcome (runLines P o p.skip 0 (p.commands.take stop.lines))
      { machine := p.machine, progress := w₁.progress } = (.ok (), r₁) := by
    obtain ⟨⟨⟩, r₁, hlines, -⟩ := outcome_bind_eq_ok.mp huntil
    exact ⟨r₁, hlines⟩
  obtain ⟨_, place, machine, h, -⟩ := exists_fresh hretry hwrite hplain hwell hprepare hlines
  obtain ⟨r₂, ⟨w₂, hprepare₂, hlines₂⟩, hmachine⟩ := h.reach stop.lines (Nat.le_refl _)
  rw [hprepare] at hprepare₂
  obtain rfl : w₁ = w₂ := congrArg Prod.snd hprepare₂
  rw [h.skip] at huntil hlines₂
  obtain ⟨r₃, hdone⟩ := runLines_of_runUntil hwrite h.history hlines₂ hmachine huntil
  rw [← h.skip] at hdone
  obtain ⟨header, place, machine, h, -⟩ := exists_fresh hretry hwrite hplain hwell hprepare hdone
  exact ⟨header, place, p, machine, h⟩

end Fresh

/-! ## Sessions that resume -/

/-- **A session that resumes** begins on the way to where the stopped one was. -/
theorem Stopped.prepare (hretry : o.retry = true) (hwrite : o.canWrite = true)
    (hplain : o.PlainPartition) {lines : List String} {used : Nat}
    (hheader : ScriptHeader.parse lines = .ok (header, used)) (hcommands : commands = lines.drop used)
    (h : Stopped slack o place commands machine header inputs saved goal w) :
    ∃ skip, Skips commands saved skip ∧
      outcome (prepare o lines inputs) w =
        (.ok ⟨commands, skip, resumedMachine o place header inputs w⟩, w) ∧
      Underway slack o place commands machine saved goal 0
        (resumedMachine o place header inputs w) := by
  obtain ⟨marker, hload, hskips⟩ := h.marks
  refine ⟨RetrySkip.resolve marker commands, hskips, ?_, ?_, ?_⟩
  · rw [prepare_resumed hretry hwrite hplain h.work hheader hload, hcommands]
    rfl
  · exact .of_replaying h.work rfl (Nat.zero_le goal) h.replays
  · rw [Nat.max_eq_left (Nat.zero_le saved)]
    exact h.marks

/-- **What a session leaves that resumed** and stops again. -/
theorem Stopped.of_tracks {entry : String → Bytes → Prop}
    {unique : ∀ id a b, entry id a → entry id b → a = b}
    (h : History P o place commands count machine) (hbegins : Begins o machine header inputs)
    (hlimits : header.Unlimited) (hgoal : goal ≤ count) (hk : k ≤ count) {n : Machine}
    (ht : Tracks (.known entry unique) o place commands machine goal k n)
    (hundisturbed : goal < k → Undisturbed commands machine goal)
    (hmarks : MarkerSkips o commands n.files saved) (hdevice : w.device = n.device)
    (hfiles : w.files = n.files) :
    Stopped (.known entry unique) o place commands machine header inputs saved (max goal k) w := by
  rw [← hfiles] at hmarks
  have hwork : o.Workspace w.files place := hfiles ▸ ht.work
  by_cases hle : k ≤ goal
  · have hr := ht.replays hle
    have hslack := hr.follows.slack.2
    rw [Nat.max_eq_left hle]
    refine .of_world h hbegins hgoal hwork hmarks (hfiles ▸ hr.follows.entries)
      (holds_known hlimits (hfiles ▸ hslack)) ?_ ?_ ?_ ?_ ?_ <;> rw [hdevice]
    · exact hr.faults
    · exact hr.endless
    · exact hr.discards
    · exact hr.size
    · exact hr.kept
  · have hf := ht.follows (by omega) (hundisturbed (by omega))
    have hslack := hf.slack.2
    rw [Nat.max_eq_right (by omega)]
    refine .of_world h hbegins hk hwork hmarks (hfiles ▸ hf.entries)
      (holds_known hlimits (hfiles ▸ hslack)) ?_ ?_ ?_ ?_ ?_ <;> rw [hdevice]
    · exact hf.reads.faults
    · exact hf.reads.endless
    · exact hf.reads.discards
    · rw [hf.reads.image]
    · intro i _
      rw [hf.reads.image]

/-! ## Options of sessions that resume -/

/-- A work directory is one for sessions that resume. -/
theorem workspace_retrying {t : FileTree} (h : o.Workspace t place) :
    ({ o with retry := true } : SessionOptions).Workspace t place :=
  ⟨h.leads, h.stash, h.stashPlain, h.markerPlain, h.markerSize, h.marker⟩

/-- A history is one for sessions that resume. -/
theorem History.retrying {count : Nat} (h : History P o place commands count machine) :
    History P { o with retry := true } place commands count machine :=
  ⟨h.plain, h.live, h.base, workspace_retrying h.work, h.empty, h.unmarked, h.step, h.readable⟩

theorem Stopped.retrying (h : Stopped slack o place commands machine header inputs saved goal w) :
    Stopped slack { o with retry := true } place commands machine header inputs saved goal w :=
  ⟨workspace_retrying h.work, h.marks,
    ⟨h.replays.follows, h.replays.newData, h.replays.faults, h.replays.endless, h.replays.discards,
      h.replays.size, h.replays.kept, h.replays.streamed⟩⟩

/-- **A fresh session that stops** leaves a world from which one that resumes counts no more than
was counted. -/
theorem Fresh.stopped {lines : List String} {p : Prepared} {stop : Stop}
    (h : Fresh P o lines inputs w header place p count machine) (hsize : count ≤ Decimal.limit64)
    (hstop : stop.done ≤ count) :
    ∃ r : Run, outcome (Session.interrupted P o stop lines inputs) w = (.ok (), r.world) ∧
      r.world.device = (machine stop.done).device ∧
      Stopped .none { o with retry := true } place p.commands machine header inputs stop.lines
        stop.done r.world := by
  have hknown : ∀ k c id data, k < count → instruction? p.commands k = some c →
      c.Stashes P (machine k) id data → (fun _ _ => True : String → Bytes → Prop) id data :=
    fun _ _ _ _ _ _ _ => trivial
  obtain ⟨r, hrun, hleft⟩ := h.interrupted hsize hknown hstop
  exact ⟨r, hrun, hleft.device, (hleft.stopped h.history h.begins hstop rfl rfl
    (holds_none hleft.accounts hleft.base rfl hleft.entries hleft.blocks hleft.same)).retrying⟩

/-- Where a session resumes that finds what a fresh one left. -/
theorem Fresh.resumption {lines : List String} {p : Prepared} {stop : Stop} {total : Nat}
    (h : Fresh P o lines inputs w header place p total machine) (hwrite : o.canWrite = true)
    (hsize : total ≤ Decimal.limit64) (hstop : stop.done ≤ total) (hcount : count ≤ total)
    (hundisturbed : stop.lines < count → Undisturbed p.commands machine stop.done) :
    Resumption P { o with retry := true } place p.commands total count machine .none stop.lines
      stop.done where
  history := h.history.retrying
  canWrite := hwrite
  total_le := hsize
  count_le := hcount
  saved_le := stop.done_bounds.1
  goal_le := stop.done_bounds.2
  goal_le_total := hstop
  undisturbed := hundisturbed
  allows _ _ _ _ _ _ _ := trivial
  pieces := .inl rfl

end Session

end BlockUpdate
