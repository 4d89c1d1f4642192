import BlockUpdate.Proofs.Replay

/-!
# Sessions that resume

What a session that resumes does on each line, compared with the history of the first session: up
to the marker it passes over commands and streams new data, a command whose marker was lost is done
again, and from there on it follows the history line by line.

- `Session.Resumption`: a history, and where a session resumes in it.
- `Session.Tracks`: the machine of the resumed session beside the history.
- **`Tracks.run`**: one command.
- **`Tracks.line`**, **`Tracks.lines`**: one line, and the first lines of the script.
- `Session.Stopped`: what a session finds that resumes.
- **`Stopped.prepare`**: it begins on the way to where the stopped session was.
-/

namespace BlockUpdate

open SessionOptions

/-! ## Machines that follow -/

namespace Machine.Follows

variable {slack : Slack} {place : Place} {m n : Machine}

/-- Files outside the stash make no difference. -/
theorem elsewhere (h : m.Follows slack place n) {t u : FileTree}
    (ht : ∀ name, t.get? (place ++ [name]) = m.files.get? (place ++ [name]))
    (hu : ∀ name, u.get? (place ++ [name]) = n.files.get? (place ++ [name]))
    (hsited : m.stash.Sited t place) (hsited' : n.stash.Sited u place) :
    ({ m with files := t } : Machine).Follows slack place { n with files := u } :=
  { h with
    sited := hsited
    sited' := hsited'
    entries := fun name => by
      rw [ht, hu]
      exact h.entries name
    slack := by
      have hslack := h.slack
      cases slack with
      | known entry unique => exact ⟨hslack.1, fun name data hdata =>
          hslack.2 name data ((hu name).symm.trans hdata)⟩
      | none => exact ⟨hslack.1, fun name => by rw [ht, hu]; exact hslack.2 name⟩ }

end Machine.Follows

namespace Session

variable {P : Primitives} {o : SessionOptions} {place : Place} {commands : List String}

/-! ## Where a session resumes -/

/-- A session resumes on the way to line `goal` of a history, and does the first `count` lines. It
finds the marker of an earlier command if the marker of the command before line `goal` was not
saved. -/
structure Resumption (P : Primitives) (o : SessionOptions) (place : Place)
    (commands : List String) (total count : Nat) (machine : Nat → Machine) (slack : Slack)
    (saved goal : Nat) : Prop where
  history : History P o place commands total machine
  canWrite : o.canWrite = true
  total_le : total ≤ Decimal.limit64
  count_le : count ≤ total
  saved_le : saved ≤ goal
  goal_le : goal ≤ saved + 1
  goal_le_total : goal ≤ total
  undisturbed : saved < count → Undisturbed commands machine goal
  allows : ∀ k c id data, k < count → instruction? commands k = some c →
    c.Stashes P (machine k) id data → slack.Allows id data
  pieces : slack = .none ∨ ∀ k c id, k < count → instruction? commands k = some c →
    c.ReadsPiece P (machine k) id → (machine k).stash.contains (machine k).files id = true

/-- The machine of a session that resumes, before line `k`. -/
structure Tracks (slack : Slack) (o : SessionOptions) (place : Place) (commands : List String)
    (machine : Nat → Machine) (goal k : Nat) (n : Machine) : Prop where
  work : o.Workspace n.files place
  base : n.stash.base = o.stashDir
  replays : k ≤ goal → Replaying slack o place commands machine goal k n
  follows : goal ≤ k → Undisturbed commands machine goal →
    (machine k).Follows slack (o.stashAt place) n

section Tracks

variable {total count : Nat} {machine : Nat → Machine} {slack : Slack} {saved goal k : Nat}
  {n : Machine} {c : Command} (h : Resumption P o place commands total count machine slack saved goal)

/-- A machine that is on its way, and follows when it is there. -/
theorem Tracks.of_replaying (hwork : o.Workspace n.files place) (hbase : n.stash.base = o.stashDir)
    (hk : k ≤ goal) (hr : Replaying slack o place commands machine goal k n) :
    Tracks slack o place commands machine goal k n where
  work := hwork
  base := hbase
  replays _ := hr
  follows hgoal hundisturbed := by
    obtain rfl : k = goal := by omega
    exact hr.finish hundisturbed

/-- A machine that follows, and is at the end of its way if it just got there. -/
theorem Tracks.of_follows (hwork : o.Workspace n.files place) (hbase : n.stash.base = o.stashDir)
    (hk : goal ≤ k) (hundisturbed : Undisturbed commands machine goal)
    (hf : (machine k).Follows slack (o.stashAt place) n) :
    Tracks slack o place commands machine goal k n where
  work := hwork
  base := hbase
  replays hgoal := by
    obtain rfl : k = goal := by omega
    exact .of_follows hf hundisturbed
  follows _ _ := hf

theorem Tracks.live (ht : Tracks slack o place commands machine goal k n)
    (hundisturbed : goal < k → Undisturbed commands machine goal) : n.canWrite = true := by
  by_cases hk : k ≤ goal
  · exact (ht.replays hk).follows.live'
  · exact (ht.follows (by omega) (hundisturbed (by omega))).live'

include h

theorem follows_marked_left {m : Machine} (hwork : o.Workspace m.files place)
    (hbase : m.stash.base = o.stashDir) :
    (o.marked place c m).Follows slack (o.stashAt place) n ↔
      m.Follows slack (o.stashAt place) n := by
  have hsited := hwork.sited h.history.plain hbase
  have hsited' := (work_marked (c := c) hwork).sited h.history.plain hbase
  rw [marked_eq]
  exact ⟨fun hf => hf.elsewhere (fun name => (get?_stash_marked name).symm) (fun _ => rfl) hsited
      hf.sited', fun hf => hf.elsewhere get?_stash_marked (fun _ => rfl) hsited' hf.sited'⟩

theorem follows_marked_right {m : Machine} (hwork : o.Workspace n.files place)
    (hbase : n.stash.base = o.stashDir) (hf : m.Follows slack (o.stashAt place) n) :
    m.Follows slack (o.stashAt place) (o.marked place c n) := by
  have hsited := (work_marked (c := c) hwork).sited h.history.plain hbase
  rw [marked_eq]
  exact hf.elsewhere (fun _ => rfl) get?_stash_marked hf.sited hsited

/-- A marker makes no difference. -/
theorem Tracks.marked (ht : Tracks slack o place commands machine goal k n) (c : Command) :
    Tracks slack o place commands machine goal k (o.marked place c n) where
  work := work_marked ht.work
  base := by
    rw [marked_eq]
    exact ht.base
  replays hk := by
    have hr := ht.replays hk
    have hsited := (work_marked (c := c) ht.work).sited h.history.plain ht.base
    rw [marked_eq]
    exact { hr with
      follows := hr.follows.elsewhere (fun _ => rfl) get?_stash_marked hr.follows.sited hsited }
  follows hgoal hundisturbed :=
    follows_marked_right h ht.work ht.base (ht.follows hgoal hundisturbed)

/-- The device fails as it does in the history. -/
theorem Tracks.faults (ht : Tracks slack o place commands machine goal k n) (hk : k ≤ count)
    (hundisturbed : goal < k → Undisturbed commands machine goal) :
    n.device.faults = (machine 0).device.faults := by
  by_cases hgoal : k ≤ goal
  · rw [(ht.replays hgoal).faults, (h.history.within_zero h.goal_le_total).faults]
  · rw [(ht.follows (by omega) (hundisturbed (by omega))).reads.faults,
      (h.history.within_zero (Nat.le_trans hk h.count_le)).faults]

/-! ## One command -/

/-- **A command of a session that resumes** brings it one line further. It is new data that is
streamed again, or the command whose marker was lost, or one of those that follow. -/
theorem Tracks.run (ht : Tracks slack o place commands machine goal k n) (hk : k < count)
    (hc : instruction? commands k = some c) (hskip : c.verb ≠ .new → saved ≤ k)
    (hleaves : slack = .none → ¬ c.LeavesEntry n) :
    Machine.Repeats (c.run P) (Tracks slack o place commands machine goal (k + 1)) n := by
  have hundisturbed : saved ≤ k → Undisturbed commands machine goal := fun hsaved =>
    h.undisturbed (by omega)
  have hkt := Nat.lt_of_lt_of_le hk h.count_le
  have hle := Nat.le_of_lt hkt
  have hlive := ht.live fun hgoal => hundisturbed (by have := h.saved_le; omega)
  have hsited := ht.work.sited h.history.plain ht.base
  have hplace : ∀ {n'}, outcome (c.run P) n = (.ok (), n') →
      o.Workspace n'.files place ∧ n'.stash.base = o.stashDir := by
    intro n' hrun
    have hwithin := Command.run_within hlive hsited hrun
    exact ⟨ht.work.congr hwithin.directories, hwithin.stash ▸ ht.base⟩
  by_cases hstream : k < goal ∧ c.verb = .new
  · refine ((ht.replays (by omega)).stream h.history hstream.1 h.goal_le_total hc hstream.2).imp
      fun n' hrun hr => ?_
    obtain ⟨hwork, hbase⟩ := hplace hrun
    exact .of_replaying hwork hbase hstream.1 hr
  · have hsaved : saved ≤ k := by
      by_cases hverb : c.verb = .new
      · exact Nat.le_trans h.saved_le (Nat.not_lt.mp fun hlt => hstream ⟨hlt, hverb⟩)
      · exact hskip hverb
    have hgoal : goal ≤ k + 1 := Nat.le_trans h.goal_le (Nat.succ_le_succ hsaved)
    obtain ⟨m₁, hrun₁, hmachine⟩ := h.history.step_of_instruction? hkt hc
    have hlive₁ := h.history.live_at hle
    have hsited₁ := h.history.sited_at hle
    have hwithin₁ := Command.run_within hlive₁ hsited₁ hrun₁
    have hmarked : ∀ n', (machine (k + 1)).Follows slack (o.stashAt place) n' ↔
        m₁.Follows slack (o.stashAt place) n' := by
      intro n'
      rw [hmachine]
      exact follows_marked_left h ((h.history.work_at hle).congr hwithin₁.directories)
        (hwithin₁.stash ▸ h.history.base_at hle)
    have hrepeats : Machine.Repeats (c.run P) (m₁.Follows slack (o.stashAt place)) n := by
      by_cases hlost : k < goal
      · -- its marker was lost
        have hverb : c.verb ≠ .new := fun hverb => hstream ⟨hlost, hverb⟩
        have hend : k + 1 = goal := by omega
        have hr := (ht.replays (Nat.le_of_lt hlost)).pass h.history hkt fun c' hc' => by
          rw [hc] at hc'
          exact Option.some.inj hc' ▸ hverb
        rw [hend] at hr hmarked
        exact Command.follow_again hlive₁ hsited₁ hverb hrun₁
          ((hmarked n).mp (hr.finish (hundisturbed hsaved)))
      · exact Command.follow (ht.follows (Nat.not_lt.mp hlost) (hundisturbed hsaved)) hrun₁
          (fun id data => h.allows k c id data hk hc)
          (h.pieces.imp_right fun hall id => hall k c id hk hc) hleaves
    refine hrepeats.imp fun n' hrun hf => ?_
    obtain ⟨hwork, hbase⟩ := hplace hrun
    exact .of_follows hwork hbase hgoal (hundisturbed hsaved) ((hmarked n').mpr hf)

/-- A line that is no instruction, or is skipped, brings a session further. -/
theorem Tracks.pass (ht : Tracks slack o place commands machine goal k n) (hk : k < count)
    (hline : ∀ c, instruction? commands k = some c → c.verb ≠ .new ∧ k < saved) :
    Tracks slack o place commands machine goal (k + 1) n := by
  have hkt := Nat.lt_of_lt_of_le hk h.count_le
  by_cases hgoal : k < goal
  · exact .of_replaying ht.work ht.base hgoal <|
      (ht.replays (Nat.le_of_lt hgoal)).pass h.history hkt fun c hc => (hline c hc).1
  · have hidle : instruction? commands k = none := by
      rcases hc : instruction? commands k with _ | c
      · rfl
      · have := (hline c hc).2
        have := h.saved_le
        omega
    have hundisturbed := h.undisturbed (by have := h.saved_le; omega)
    refine .of_follows ht.work ht.base (by omega) hundisturbed ?_
    rw [h.history.step_of_none hkt hidle]
    exact ht.follows (by omega) hundisturbed

end Tracks

/-! ## Lines -/

/-- A session goes on and has what is wanted; only a device with faults may make it fail. -/
def Proceeds (x : RunM Unit) (faults : Faults) (wanted : Machine → Prop) (r : Run) : Prop :=
  (∃ r', outcome x r = (.ok (), r') ∧ wanted r'.machine) ∨
    faults ≠ Faults.none ∧ ∃ e r', outcome x r = (.error e, r')

theorem Proceeds.of_ok {x : RunM Unit} {faults : Faults} {wanted : Machine → Prop} {r r' : Run}
    (h : Proceeds x faults wanted r) (hok : outcome x r = (.ok (), r')) : wanted r'.machine := by
  rcases h with ⟨r₁, h₁, hwanted⟩ | ⟨-, e, r₁, h₁⟩
  · rw [h₁] at hok
    obtain rfl := congrArg Prod.snd hok
    exact hwanted
  · rw [h₁] at hok
    cases congrArg Prod.fst hok

theorem Proceeds.of_healthy {x : RunM Unit} {faults : Faults} {wanted : Machine → Prop} {r : Run}
    (h : Proceeds x faults wanted r) (hfaults : faults = Faults.none) :
    ∃ r', outcome x r = (.ok (), r') ∧ wanted r'.machine :=
  h.resolve_right fun h => h.1 hfaults

/-- A session that resumed and is done with `k` lines. -/
structure Underway (slack : Slack) (o : SessionOptions) (place : Place) (commands : List String)
    (machine : Nat → Machine) (saved goal k : Nat) (n : Machine) : Prop where
  tracks : Tracks slack o place commands machine goal k n
  marks : MarkerSkips o commands n.files (max saved k)

section Lines

variable {total count : Nat} {machine : Nat → Machine} {slack : Slack} {saved goal k : Nat}
  (h : Resumption P o place commands total count machine slack saved goal)
  {skip : RetrySkip} (hskips : Skips commands saved skip) {r : Run}

include h

theorem Underway.marked {n : Machine} (hn : Underway slack o place commands machine saved goal k n)
    (hk : k < count) {c : Command} (hc : instruction? commands k = some c)
    {n₁ : Machine} (htracks : Tracks slack o place commands machine goal (k + 1) n₁)
    (hmarker : n₁.files.get? (o.markerAt place) = n.files.get? (o.markerAt place))
    (hskip : c.verb ≠ .new → saved ≤ k) :
    Underway slack o place commands machine saved goal (k + 1) (o.marked place c n₁) := by
  refine ⟨htracks.marked h c, ?_⟩
  by_cases hverb : c.verb = .new
  · rw [SessionOptions.marked, if_pos hverb]
    have hmarks := hn.marks.congr h.history.plain hn.tracks.work htracks.work hmarker
    by_cases hsaved : saved ≤ k
    · rw [Nat.max_eq_right hsaved] at hmarks
      rw [Nat.max_eq_right (Nat.le_succ_of_le hsaved)]
      refine hmarks.succ fun c' hc' => ?_
      rw [hc] at hc'
      exact Option.some.inj hc' ▸ hverb
    · rw [Nat.max_eq_left (by omega)] at hmarks ⊢
      exact hmarks
  · rw [Nat.max_eq_right (Nat.le_succ_of_le (hskip hverb))]
    exact markerSkips_marked h.history.plain htracks.work
      (Nat.lt_of_lt_of_le hk (Nat.le_trans h.count_le h.total_le)) hc hverb

theorem Underway.pass {n : Machine} (hn : Underway slack o place commands machine saved goal k n)
    (hk : k < count)
    (hline : ∀ c, instruction? commands k = some c → c.verb ≠ .new ∧ k < saved) :
    Underway slack o place commands machine saved goal (k + 1) n := by
  refine ⟨hn.tracks.pass h hk hline, ?_⟩
  have hmarks := hn.marks
  by_cases hsaved : saved ≤ k
  · rw [Nat.max_eq_right hsaved] at hmarks
    rw [Nat.max_eq_right (Nat.le_succ_of_le hsaved)]
    refine hmarks.succ fun c hc => ?_
    have := (hline c hc).2
    omega
  · rw [Nat.max_eq_left (by omega)] at hmarks ⊢
    exact hmarks

include hskips

/-- **One line** brings a session that resumed further. -/
theorem Underway.line (hr : Underway slack o place commands machine saved goal k r.machine)
    (hk : k < count) {line : String} (hline : commands[k]? = some line)
    (hleaves : slack = .none → ∀ c, instruction? commands k = some c → skip.skips c = false →
      ¬ c.LeavesEntry r.machine) :
    Proceeds (runLine P o skip k line) (machine 0).device.faults
      (Underway slack o place commands machine saved goal (k + 1)) r := by
  rcases hc : instruction? commands k with _ | c
  · have hread := fun e => h.history.readable k (Nat.lt_of_lt_of_le hk h.count_le) line e hline
    refine .inl ⟨r, runLine_idle hline hc hread, hr.pass h hk ?_⟩
    rw [hc]
    exact nofun
  · rw [Proceeds, runLine_instruction hline hc]
    rcases hskips.cases hc with ⟨hskip, hverb, hlt⟩ | ⟨hskip, hsaved⟩
    · rw [if_pos hskip]
      refine .inl ⟨_, rfl, hr.pass h hk fun c' hc' => ?_⟩
      rw [hc] at hc'
      exact Option.some.inj hc' ▸ ⟨hverb, hlt⟩
    · rw [if_neg (by rw [hskip]; exact nofun)]
      have hsited := hr.tracks.work.sited h.history.plain hr.tracks.base
      have hundisturbed : goal < k → Undisturbed commands machine goal := fun hgoal =>
        h.undisturbed (by have := h.saved_le; omega)
      rcases hr.tracks.run h hk hc hsaved fun hnone => hleaves hnone c hc hskip with
        ⟨n₁, hrun, htracks⟩ | ⟨hfaults, e, n₁, hfail, -⟩
      · have hsaves : Saves o c n₁.files (o.marked place c n₁).files :=
          (saves_iff h.history.plain h.canWrite htracks.work).mpr (marked_eq o place c n₁).symm
        obtain ⟨r', hcommand, hmachine⟩ := runCommand_executed hrun hsaves
        refine .inl ⟨r', hcommand, ?_⟩
        rw [hmachine, ← marked_eq]
        refine hr.marked h hk hc htracks ?_ hsaved
        refine (Command.run_within (hr.tracks.live hundisturbed) hsited hrun).elsewhere _ ?_
        rintro ⟨name, hname⟩
        exact o.stashAt_append_ne_markerAt place name hname.symm
      · rw [hr.tracks.faults h (Nat.le_of_lt hk) hundisturbed] at hfaults
        exact .inr ⟨hfaults, runCommand_failed hfail⟩

/-- **The first lines** bring a session that resumed as far. -/
theorem Underway.lines (hr : Underway slack o place commands machine saved goal 0 r.machine)
    (hk : k ≤ count)
    (hleaves : slack = .none → ∀ j < k, ∀ c r', instruction? commands j = some c →
      skip.skips c = false →
      outcome (runLines P o skip 0 (commands.take j)) r = (.ok (), r') →
      ¬ c.LeavesEntry r'.machine) :
    Proceeds (runLines P o skip 0 (commands.take k)) (machine 0).device.faults
      (Underway slack o place commands machine saved goal k) r := by
  induction k with
  | zero => exact .inl ⟨r, rfl, hr⟩
  | succ k ih =>
    have hbefore := ih (by omega) fun hnone j hj => hleaves hnone j (by omega)
    rcases hline : commands[k]? with _ | line
    · have hnone : instruction? commands k = none := by rw [instruction?, hline]
      rw [take_succ_of_none hline]
      rcases hbefore with ⟨r₁, h₁, hr₁⟩ | hfailed
      · refine .inl ⟨r₁, h₁, hr₁.pass h hk ?_⟩
        rw [hnone]
        intro c hc
        cases hc
      · exact .inr hfailed
    · rcases hbefore with ⟨r₁, h₁, hr₁⟩ | ⟨hfaults, e, r₁, h₁⟩
      · rcases hr₁.line h hskips hk hline fun hnone c hc hskip =>
          hleaves hnone k (Nat.lt_succ_self k) c r₁ hc hskip h₁ with
          ⟨r₂, h₂, hr₂⟩ | ⟨hfaults, e, r₂, h₂⟩
        · exact .inl ⟨r₂, (runLines_take_succ hline).mpr ⟨r₁, h₁, h₂⟩, hr₂⟩
        · exact .inr ⟨hfaults, e, r₂, by
            rw [runLines_take_succ_bind hline, outcome_bind_of_ok h₁, h₂]⟩
      · exact .inr ⟨hfaults, e, r₁, by
          rw [runLines_take_succ_bind hline, outcome_bind_of_error h₁]⟩

/-! ## Stopping again -/

/-- **A command whose marker is not saved** brings a session as far, but its marker does not. -/
theorem Underway.unsaved (hr : Underway slack o place commands machine saved goal k r.machine)
    (hk : k < count) {line : String} (hline : commands[k]? = some line)
    (hleaves : slack = .none → ∀ c, instruction? commands k = some c → skip.skips c = false →
      ¬ c.LeavesEntry r.machine) :
    Proceeds (runUnsaved P skip k line) (machine 0).device.faults (fun n =>
      Tracks slack o place commands machine goal (k + 1) n ∧
        MarkerSkips o commands n.files (max saved k)) r := by
  rcases hc : instruction? commands k with _ | c
  · have hread := fun e => h.history.readable k (Nat.lt_of_lt_of_le hk h.count_le) line e hline
    refine .inl ⟨r, runUnsaved_idle hline hc hread, hr.tracks.pass h hk ?_, hr.marks⟩
    rw [hc]
    exact nofun
  · rcases hskips.cases hc with ⟨hskip, hverb, hlt⟩ | ⟨hskip, hsaved⟩
    · refine .inl ⟨r, runUnsaved_skipped hline hc hskip, hr.tracks.pass h hk fun c' hc' => ?_,
        hr.marks⟩
      rw [hc] at hc'
      exact Option.some.inj hc' ▸ ⟨hverb, hlt⟩
    · have hsited := hr.tracks.work.sited h.history.plain hr.tracks.base
      have hundisturbed : goal < k → Undisturbed commands machine goal := fun hgoal =>
        h.undisturbed (by have := h.saved_le; omega)
      rcases hr.tracks.run h hk hc hsaved fun hnone => hleaves hnone c hc hskip with
        ⟨n₁, hrun, htracks⟩ | ⟨hfaults, e, n₁, hfail, -⟩
      · obtain ⟨r', hunsaved, rfl⟩ := (runUnsaved_eq_ok hline hc hskip).mpr hrun
        refine .inl ⟨r', hunsaved, htracks, ?_⟩
        refine hr.marks.congr h.history.plain hr.tracks.work htracks.work ?_
        refine (Command.run_within (hr.tracks.live hundisturbed) hsited hrun).elsewhere _ ?_
        rintro ⟨name, hname⟩
        exact o.stashAt_append_ne_markerAt place name hname.symm
      · rw [hr.tracks.faults h (Nat.le_of_lt hk) hundisturbed] at hfaults
        rcases hunsaved : outcome (runUnsaved P skip k line) r with ⟨e' | ⟨⟩, r'⟩
        · exact .inr ⟨hfaults, e', r', hunsaved⟩
        · rw [(runUnsaved_eq_ok hline hc hskip).mp ⟨r', hunsaved, rfl⟩] at hfail
          cases congrArg Prod.fst hfail

/-- **A session that resumed and stops again** is as far as it was done. -/
theorem Underway.until (hr : Underway slack o place commands machine saved goal 0 r.machine)
    {stop : Stop} (hstop : stop.done ≤ count)
    (hleaves : slack = .none → ∀ j < stop.done, ∀ c r', instruction? commands j = some c →
      skip.skips c = false →
      outcome (runLines P o skip 0 (commands.take j)) r = (.ok (), r') →
      ¬ c.LeavesEntry r'.machine) :
    Proceeds (runUntil P o skip commands stop) (machine 0).device.faults (fun n =>
      Tracks slack o place commands machine goal stop.done n ∧
        MarkerSkips o commands n.files (max saved stop.lines)) r := by
  obtain ⟨k, unsaved⟩ := stop
  have hk : k ≤ count := by
    cases unsaved
    · exact hstop
    · exact Nat.le_of_succ_le hstop
  rcases hr.lines h hskips hk fun hnone j hj => hleaves hnone j (by
      cases unsaved
      · exact hj
      · exact Nat.lt_succ_of_lt hj) with ⟨r₁, h₁, hr₁⟩ | ⟨hfaults, e, r₁, h₁⟩
  · rw [Proceeds, runUntil, outcome_bind_of_ok h₁]
    cases unsaved with
    | false => exact .inl ⟨r₁, rfl, hr₁.tracks, hr₁.marks⟩
    | true =>
      rcases hline : commands[k]? with _ | line
      · have hnone : instruction? commands k = none := by rw [instruction?, hline]
        refine .inl ⟨r₁, rfl, hr₁.tracks.pass h hstop ?_, hr₁.marks⟩
        rw [hnone]
        intro c hc
        cases hc
      · exact hr₁.unsaved h hskips hstop hline fun hnone c hc hskip =>
          hleaves hnone k (Nat.lt_succ_self k) c r₁ hc hskip h₁
  · exact .inr ⟨hfaults, e, r₁, by rw [runUntil, outcome_bind_of_error h₁]⟩

end Lines

end Session

end BlockUpdate
