import BlockUpdate.Proofs.CleanStart

/-!
# Interrupted sessions end like one that was not

However often a session is interrupted and resumed, the session that is not interrupted leaves what
one session alone would have left.

- `Stop.within`: a stop behind the last line is one at the end.
- `runScript_eq_ok`: what a session that succeeds went through.
- `Stopped.finish`, `Stopped.stopAgain`: the last session, and one before it.
- **`interruptedRuns_image_eq`**: the result, for any stops.
-/

namespace BlockUpdate

/-- A stop behind the last line is one at the end. -/
def Stop.within (stop : Stop) (count : Nat) : Stop :=
  if stop.lines < count then stop else ⟨count, false⟩

theorem Stop.done_within (stop : Stop) (count : Nat) : (stop.within count).done ≤ count := by
  rw [within]
  split_ifs with h
  · rw [done]
    split_ifs <;> omega
  · exact Nat.le_refl count

namespace Session

open SessionOptions

variable {P : Primitives} {o : SessionOptions} {place : Place} {commands : List String}
  {machine : Nat → Machine} {slack : Slack} {header : ScriptHeader} {inputs : ScriptInputs}
  {saved goal : Nat} {w w' : World} {lines : List String} {used : Nat}

/-! ## Stops within a script -/

theorem runUntil_within (skip : RetrySkip) (stop : Stop) :
    runUntil P o skip commands (stop.within commands.length) =
      runUntil P o skip commands stop := by
  rw [Stop.within]
  split_ifs with h
  · rfl
  · have hline : commands[stop.lines]? = none := List.getElem?_eq_none (by omega)
    rw [runUntil, runUntil, List.take_length, List.take_of_length_le (by omega), hline]
    cases stop.unsaved <;> rfl

theorem interrupted_within {p : Prepared} (hprepare : outcome (prepare o lines inputs) w = (.ok p, w'))
    (stop : Stop) :
    outcome (interrupted P o (stop.within p.commands.length) lines inputs) w =
      outcome (interrupted P o stop lines inputs) w := by
  rw [interrupted, interrupted, outcome_bind_of_ok hprepare, outcome_bind_of_ok hprepare,
    runUntil_within]

/-! ## Whole sessions -/

/-- A session that succeeds ran all its lines and cleaned up. -/
theorem runScript_eq_ok {summary : Summary} :
    outcome (runScript P o lines inputs) w = (.ok summary, w') ↔
      ∃ p w₁ r, outcome (prepare o lines inputs) w = (.ok p, w₁) ∧
        outcome (runLines P o p.skip 0 p.commands)
          { machine := p.machine, progress := w₁.progress } = (.ok (), r) ∧
        outcome (cleanUp o p.machine.stash) r.world = (.ok (), w') ∧
        summary = ⟨r.executed, r.skipped, r.machine.written⟩ := by
  rw [runScript, outcome_bind_eq_ok]
  refine exists_congr fun p => exists_congr fun w₁ => ?_
  rw [exists_and_left]
  refine and_congr_right fun _ => ?_
  rw [outcome_bind, runCommands, outcome_bind, outcome_onMachine]
  rcases outcome (runLines P o p.skip 0 p.commands)
    { machine := p.machine, progress := w₁.progress } with ⟨e | ⟨⟩, r⟩
  · exact ⟨nofun, fun ⟨_, h, _⟩ => nomatch h⟩
  · show outcome (cleanUp o p.machine.stash >>= fun _ => pure _) r.world = _ ↔ _
    rw [outcome_bind_eq_ok]
    constructor
    · rintro ⟨⟨⟩, w₂, hclean, h⟩
      obtain ⟨hsummary, rfl⟩ := Prod.ext_iff.mp h
      exact ⟨r, rfl, hclean, (Except.ok.inj hsummary).symm⟩
    · rintro ⟨r', h, hclean, rfl⟩
      obtain rfl : r = r' := congrArg Prod.snd h
      exact ⟨(), w', hclean, rfl⟩

/-- A session that is done with its lines succeeds. -/
theorem runScript_of_runLines (hwrite : o.canWrite = true) (hplain : o.PlainPartition)
    {p : Prepared} {w₁ : World} {r : Run} (hprepare : outcome (prepare o lines inputs) w = (.ok p, w₁))
    (hrun : outcome (runLines P o p.skip 0 p.commands)
      { machine := p.machine, progress := w₁.progress } = (.ok (), r))
    (hwork : o.Workspace r.machine.files place) (hbase : p.machine.stash.base = o.stashDir) :
    ∃ summary w', outcome (runScript P o lines inputs) w = (.ok summary, w') ∧
      w'.device = r.machine.device := by
  obtain ⟨w', hclean, hdevice, -⟩ := cleanUp_workspace hwrite hplain
    (show o.Workspace r.world.files place from hwork) hbase
  exact ⟨_, w', runScript_eq_ok.mpr ⟨p, w₁, r, hprepare, hrun, hclean, rfl⟩, hdevice⟩

/-! ## The sessions after the first -/

/-- What a session leaves that is not interrupted. -/
def Finished (o : SessionOptions) (image : Bytes) (w : World) : Prop :=
  w.device.image = image ∧ w.files.node o.markerPath = .error (.errno Errno.noEntry) ∧
    w.files.node o.stashDir = .error (.errno Errno.noEntry)

/-- A session that is done with its lines leaves the image that it has, and cleans up. -/
theorem finished_of_cleanUp (hwrite : o.canWrite = true) (hplain : o.PlainPartition)
    (hwork : o.Workspace w.files place) {s : Stash} (hs : s.base = o.stashDir)
    (hclean : outcome (cleanUp o s) w = (.ok (), w')) : Finished o w.device.image w' := by
  obtain ⟨w₁, hclean₁, hdevice, hmarker, hstash⟩ := cleanUp_workspace hwrite hplain hwork hs
  rw [hclean₁] at hclean
  obtain rfl : w₁ = w' := congrArg Prod.snd hclean
  exact ⟨by rw [hdevice], hmarker, hstash⟩

section Resumed

variable {entry : String → Bytes → Prop} {unique : ∀ id a b, entry id a → entry id b → a = b}
  (hretry : o.retry = true) (hheader : ScriptHeader.parse lines = .ok (header, used))
  (hcommands : commands = lines.drop used) (hfaults : (machine 0).device.faults = Faults.none)
  (hundisturbed : ∀ k ≤ commands.length, Undisturbed commands machine k)
  (h : Resumption P o place commands commands.length commands.length machine
    (.known entry unique) saved goal)
  (hw : Stopped (.known entry unique) o place commands machine header inputs saved goal w)

include hretry hheader hcommands hfaults hundisturbed h hw

/-- **The last session** comes to the end of the history. -/
theorem Stopped.finish :
    ∃ summary w', outcome (runScript P o lines inputs) w = (.ok summary, w') ∧
      Finished o (machine commands.length).device.image w' := by
  obtain ⟨skip, hskips, hprepare, hunderway⟩ :=
    hw.prepare hretry h.canWrite h.history.plain hheader hcommands
  obtain ⟨r, hrun, hr⟩ := (Underway.lines h hskips
    (r := { machine := resumedMachine o place header inputs w, progress := w.progress }) hunderway (Nat.le_refl _) nofun).of_healthy hfaults
  rw [List.take_length] at hrun
  have hfollows := hr.tracks.follows h.goal_le_total (hundisturbed _ h.goal_le_total)
  have hwork : o.Workspace r.world.files place := hr.tracks.work
  obtain ⟨w', hclean, -⟩ := cleanUp_workspace h.canWrite h.history.plain hwork
    (s := (resumedMachine o place header inputs w).stash) rfl
  refine ⟨_, w', runScript_eq_ok.mpr ⟨_, w, r, hprepare, hrun, hclean, rfl⟩, ?_⟩
  rw [← hfollows.reads.image]
  exact finished_of_cleanUp h.canWrite h.history.plain hwork rfl hclean

/-- **A session before the last** leaves a world to go on from. -/
theorem Stopped.stopAgain (hbegins : Begins o machine header inputs) (hlimits : header.Unlimited)
    (stop : Stop) :
    ∃ w', outcome (interrupted P o stop lines inputs) w = (.ok (), w') ∧
      Stopped (.known entry unique) o place commands machine header inputs
        (max saved (stop.within commands.length).lines)
        (max goal (stop.within commands.length).done) w' := by
  obtain ⟨skip, hskips, hprepare, hunderway⟩ :=
    hw.prepare hretry h.canWrite h.history.plain hheader hcommands
  have hdone := stop.done_within commands.length
  obtain ⟨r, huntil, htracks, hmarks⟩ := (Underway.until h hskips
    (r := { machine := resumedMachine o place header inputs w, progress := w.progress }) hunderway hdone nofun).of_healthy hfaults
  refine ⟨r.world, ?_, ?_⟩
  · rw [← interrupted_within hprepare]
    exact interrupted_eq_ok.mpr ⟨_, w, r, hprepare, huntil, rfl⟩
  · exact .of_tracks h.history hbegins hlimits h.goal_le_total hdone htracks
      (fun _ => hundisturbed _ h.goal_le_total) hmarks rfl rfl

end Resumed

/-- **All sessions after the first** come to the end of the history together. -/
theorem Stopped.interruptedRuns {entry : String → Bytes → Prop}
    {unique : ∀ id a b, entry id a → entry id b → a = b}
    (hretry : o.retry = true) (hheader : ScriptHeader.parse lines = .ok (header, used))
    (hcommands : commands = lines.drop used) (hfaults : (machine 0).device.faults = Faults.none)
    (hundisturbed : ∀ k ≤ commands.length, Undisturbed commands machine k)
    (hbegins : Begins o machine header inputs) (hlimits : header.Unlimited)
    (hresume : ∀ saved goal, saved ≤ goal → goal ≤ saved + 1 → goal ≤ commands.length →
      Resumption P o place commands commands.length commands.length machine (.known entry unique) saved goal)
    (hw : Stopped (.known entry unique) o place commands machine header inputs saved goal w)
    (hsaved : saved ≤ goal) (hgoal : goal ≤ saved + 1) (hcount : goal ≤ commands.length)
    (stops : List Stop) :
    ∃ summary w', outcome (interruptedRuns P o lines inputs stops) w = (.ok summary, w') ∧
      Finished o (machine commands.length).device.image w' := by
  induction stops generalizing saved goal w with
  | nil => exact hw.finish hretry hheader hcommands hfaults hundisturbed (hresume _ _ hsaved hgoal hcount)
  | cons stop rest ih =>
    obtain ⟨w₁, hstop, hw₁⟩ := hw.stopAgain hretry hheader hcommands hfaults hundisturbed
      (hresume _ _ hsaved hgoal hcount) hbegins hlimits stop
    have hsame : ({ o with retry := true } : SessionOptions) = o := by rw [← hretry]
    obtain ⟨hlines, hdone⟩ := (stop.within commands.length).done_bounds
    have hend := stop.done_within commands.length
    obtain ⟨summary, w', hruns, hfinished⟩ := ih hw₁ (by omega) (by omega) (by omega)
    refine ⟨summary, w', ?_, hfinished⟩
    rw [Session.interruptedRuns, outcome_bind_of_ok hstop, hsame, hruns]

/-! ## The result -/

/-- **What was stashed under a name is one byte string.** -/
theorem stashed_unique {count : Nat} (h : History P o place commands count machine)
    {involved : Bytes → Prop} (hfree : CollisionFree P involved)
    (hinvolved : ∀ k c id data, k < count → instruction? commands k = some c →
      c.Stashes P (machine k) id data → involved data)
    (id : String) (a b : Bytes)
    (ha : ∃ k c, k < count ∧ instruction? commands k = some c ∧ c.Stashes P (machine k) id a)
    (hb : ∃ k c, k < count ∧ instruction? commands k = some c ∧ c.Stashes P (machine k) id b) :
    a = b := by
  obtain ⟨k, c, hk, hc, ha⟩ := ha
  obtain ⟨k', c', hk', hc', hb⟩ := hb
  obtain ⟨m, hverify, hsize⟩ := ha.verified (h.sited_at (Nat.le_of_lt hk))
  obtain ⟨n, hverify', hsize'⟩ := hb.verified (h.sited_at (Nat.le_of_lt hk'))
  exact Checksum.eq_of_verify hfree hverify hverify' hsize hsize'
    (hinvolved k c id a hk hc ha) (hinvolved k' c' id b hk' hc' hb)

/-- **A fresh session that succeeds has a history** up to its end. -/
theorem fresh_of_runScript (hretry : o.retry = false) (hwrite : o.canWrite = true)
    (hplain : o.PlainPartition) (hwell : w.files.WellFormed) {summary : Summary}
    (hfresh : outcome (runScript P o lines inputs) w = (.ok summary, w')) :
    ∃ header place p machine, Fresh P o lines inputs w header place p p.commands.length machine ∧
      Finished o (machine p.commands.length).device.image w' := by
  obtain ⟨p, w₁, r, hprepare, hrun, hclean, -⟩ := runScript_eq_ok.mp hfresh
  rw [← List.take_length (l := p.commands)] at hrun
  obtain ⟨header, place, machine, h, hstart⟩ :=
    exists_fresh hretry hwrite hplain hwell hprepare hrun
  have hend : r.machine = machine p.commands.length := by
    obtain ⟨r₁, ⟨w₂, hprepare₂, hrun₂⟩, hmachine⟩ := h.reach _ (Nat.le_refl _)
    rw [hprepare] at hprepare₂
    obtain rfl : w₁ = w₂ := congrArg Prod.snd hprepare₂
    rw [hrun] at hrun₂
    obtain rfl : r = r₁ := congrArg Prod.snd hrun₂
    exact hmachine
  have hwork : o.Workspace r.world.files place := by
    show o.Workspace r.machine.files place
    rw [hend]
    exact h.history.work_at (Nat.le_refl _)
  refine ⟨header, place, p, machine, h, ?_⟩
  rw [← hend]
  exact finished_of_cleanUp hwrite hplain hwork (by rw [hstart]; exact h.history.base) hclean

/-- **Interrupted sessions end like one that was not.** -/
theorem interruptedRuns_image_eq (hretry : o.retry = false) (hwrite : o.canWrite = true)
    (hplain : o.PlainPartition) (hwell : w.files.WellFormed) (hhealthy : w.device.Healthy)
    (hsize : lines.length ≤ Decimal.limit64)
    (hheader : ScriptHeader.parse lines = .ok (header, used)) (hlimits : header.Unlimited)
    {summary : Summary} (hfresh : outcome (runScript P o lines inputs) w = (.ok summary, w'))
    (hstays : NewDataStays (lines.drop used))
    (hpieces : ∀ k c m id, ExecutesAt P o lines inputs w k c m → c.ReadsPiece P m id →
      m.stash.contains m.files id = true)
    (hfree : CollisionFree P fun data => ∃ k c m id, ExecutesAt P o lines inputs w k c m ∧
      c.Stashes P m id data)
    (stops : List Stop) :
    ∃ summary' final, outcome (interruptedRuns P o lines inputs stops) w = (.ok summary', final) ∧
      Finished o w'.device.image final := by
  obtain ⟨_, place, p, machine, h, hfinished⟩ :=
    fresh_of_runScript hretry hwrite hplain hwell hfresh
  obtain ⟨_, hheader₁, hcommands⟩ := h.commands
  rw [hheader] at hheader₁
  obtain ⟨rfl, rfl⟩ : header = _ ∧ used = _ := by simpa using hheader₁
  have hcount : p.commands.length ≤ Decimal.limit64 := Nat.le_trans h.size_le hsize
  have hundisturbed : ∀ k ≤ p.commands.length, Undisturbed p.commands machine k :=
    fun k hk => h.history.undisturbed (hcommands ▸ hstays) hk
  -- what an executed command stashed is what its name says
  let entry (id : String) (data : Bytes) : Prop :=
    ∃ k c, k < p.commands.length ∧ instruction? p.commands k = some c ∧
      c.Stashes P (machine k) id data
  have hentry : ∀ k c id data, k < p.commands.length → instruction? p.commands k = some c →
      c.Stashes P (machine k) id data → entry id data :=
    fun k c id data hk hc hstashes => ⟨k, c, hk, hc, hstashes⟩
  have unique : ∀ id a b, entry id a → entry id b → a = b :=
    stashed_unique h.history hfree fun k c id data hk hc hstashes =>
      ⟨k, c, machine k, id, h.executes hk hc, hstashes⟩
  have hresume : ∀ saved goal, saved ≤ goal → goal ≤ saved + 1 → goal ≤ p.commands.length →
      Resumption P { o with retry := true } place p.commands p.commands.length
        p.commands.length machine (.known entry unique) saved goal := fun saved goal hsaved hgoal hle =>
    { history := h.history.retrying
      canWrite := hwrite
      total_le := hcount
      count_le := Nat.le_refl _
      saved_le := hsaved
      goal_le := hgoal
      goal_le_total := hle
      undisturbed := fun _ => hundisturbed goal hle
      allows := hentry
      pieces := .inr fun k c id hk hc hreads =>
        hpieces k c (machine k) id (h.executes hk hc) hreads }
  cases stops with
  | nil => exact ⟨summary, w', hfresh, hfinished.1 ▸ hfinished⟩
  | cons stop rest =>
    -- the first session stops, and the others go on
    obtain ⟨r, hstop, hleft⟩ := h.interrupted hcount hentry (stop.done_within p.commands.length)
    obtain ⟨_, ⟨_, hprepare, -⟩, -⟩ := h.reach 0 (Nat.zero_le _)
    rw [interrupted_within hprepare] at hstop
    have hheld : (Slack.known entry unique).Holds (o.stashAt place)
        (machine (stop.within p.commands.length).done) (resumedMachine o place header inputs r.world) :=
      holds_known hlimits hleft.accounts.known
    have hstopped :=
      (hleft.stopped h.history h.begins (stop.done_within _) rfl rfl hheld).retrying
    have hbegins : Begins { o with retry := true } machine header inputs := h.begins
    obtain ⟨hlines, hdone⟩ := (stop.within p.commands.length).done_bounds
    obtain ⟨summary', final, hruns, hfinal⟩ := Stopped.interruptedRuns rfl hheader hcommands
      (by rw [h.device]; exact hhealthy.1) hundisturbed hbegins hlimits hresume hstopped hlines
      hdone (stop.done_within _) rest
    refine ⟨summary', final, ?_, ?_⟩
    · rw [interruptedRuns, outcome_bind_of_ok hstop, hruns]
    · rw [hfinished.1]
      exact hfinal

/-- A script that refreshes two blocks, stopped twice on the way. -/
theorem interruptedRuns_refresh :
    ∃ summary w' summary' final,
      outcome (runScript .tabled blockOptions (refresh "new 2,2,3") refreshInputs)
        (blockWorld [7, 0, 1]) = (.ok summary, w') ∧
      outcome (interruptedRuns .tabled blockOptions (refresh "new 2,2,3") refreshInputs
        [⟨0, true⟩, ⟨2, false⟩, ⟨1, true⟩]) (blockWorld [7, 0, 1]) = (.ok summary', final) ∧
      Finished blockOptions w'.device.image final ∧
      w'.device.image = Bytes.uniform [7, 7, 5] := by
  let new : Command := ⟨.new, ["2,2,3"], "new 2,2,3", 0⟩
  have hnew : RefreshesAt "new 2,2,3" new 2 := ⟨rfl, rfl, rfl⟩
  obtain ⟨w₁, hprepare⟩ := prepare_blockWorld [7, 0, 1] refreshInputs
    (header_refresh "new 2,2,3")
  obtain ⟨r₁, r₂, -, -, hlines, himage, hwork⟩ := runLines_refresh hnew (by decide) rfl
    (by decide) (r := { machine := blockMachine [7, 0, 1] ⟨4, 2, 0, 0⟩ refreshInputs,
                        progress := w₁.progress }) rfl
  obtain ⟨summary, w', hrun, hdevice⟩ :=
    runScript_of_runLines rfl plain_blockOptions hprepare hlines hwork rfl
  have hstays : NewDataStays ((refresh "new 2,2,3").drop 4) := by
    intro j k c c' set set' block hjk hc hverb hc' hverb' hset hset' hblocks
    rcases instruction?_refresh hnew hc with ⟨rfl, rfl⟩ | ⟨rfl, rfl⟩
    · rcases instruction?_refresh hnew hc' with ⟨rfl, rfl⟩ | ⟨rfl, rfl⟩
      · exact hverb' rfl
      · obtain rfl := Option.some.inj hset
        obtain rfl := Option.some.inj hset'
        obtain ⟨⟨q, hq, hlow, -⟩, q', hq', -, hhigh⟩ := hblocks
        rw [List.mem_singleton.mp hq] at hlow
        rw [List.mem_singleton.mp hq'] at hhigh
        exact absurd (Nat.lt_of_le_of_lt hlow hhigh) (by decide)
    · cases hverb
  have hpieces : ∀ k c m id, ExecutesAt .tabled blockOptions (refresh "new 2,2,3") refreshInputs
      (blockWorld [7, 0, 1]) k c m → c.ReadsPiece .tabled m id →
      m.stash.contains m.files id = true := by
    rintro k c m id ⟨p, r, ⟨w₂, hprepared, -⟩, hc, -⟩ ⟨hmakes, recipe, hneeds, piece, hmem, -⟩
    rw [hprepare] at hprepared
    obtain rfl := Except.ok.inj (congrArg Prod.fst hprepared)
    rcases instruction?_refresh hnew hc with ⟨-, rfl⟩ | ⟨-, rfl⟩
    · rcases hmakes with h | h | h | h <;> cases h
    · obtain rfl := Except.ok.inj hneeds.1
      cases hmem
  obtain ⟨summary', final, hruns, hfinished⟩ := interruptedRuns_image_eq (P := .tabled)
    (o := blockOptions) rfl rfl plain_blockOptions (wellFormed_blockWorld [7, 0, 1]) ⟨rfl, rfl⟩
    (by decide) (header_refresh "new 2,2,3") ⟨rfl, rfl⟩ hrun hstays hpieces (collisionFree_tabled _)
    [⟨0, true⟩, ⟨2, false⟩, ⟨1, true⟩]
  exact ⟨summary, w', summary', final, hrun, hruns, hfinished, by rw [hdevice, himage]⟩

end Session

end BlockUpdate
