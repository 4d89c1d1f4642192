import BlockUpdate.Proofs.Following
import BlockUpdate.Proofs.Interruption
import BlockUpdate.Proofs.Workspace

/-!
# The history of a session

The machines through which a fresh session goes, line by line. What a session that resumes is
compared with is a machine of this history.

- `SessionOptions.marked`: a machine with the marker of a command in its files.
- `Session.MarkerSkips`: up to which line a session that finds the marker skips.
- `Session.History`: the machines before each line.
- **`History.within`**: a line changes nothing but the target of its command, the stash and the
  marker.
- **`History.markerSkips`**: the marker of a history says how far it got.
- **`History.of_fresh`**: every fresh session that runs some lines has a history.
-/

namespace BlockUpdate

namespace SessionOptions

/-! ## Markers -/

/-- The places of a session's files. -/
def Spots (o : SessionOptions) (place p : Place) : Prop :=
  Stash.Below (o.stashAt place) p ∨ p = o.markerAt place

/-- A machine with the marker of a command in its files. New data has no marker. -/
def marked (o : SessionOptions) (place : Place) (c : Command) (m : Machine) : Machine :=
  if c.verb = .new then m
  else { m with
    files := m.files.written (o.markerAt place) (RetryMarker.ofCommand c).encode }

section Marked

variable {o : SessionOptions} {place : Place} {c : Command} {m : Machine} {t : FileTree}

/-- A marker can be saved in a work directory. -/
theorem saves_iff (hplain : o.PlainPartition) (hwrite : o.canWrite = true)
    (hwork : o.Workspace m.files place) :
    Session.Saves o c m.files t ↔ { m with files := t } = o.marked place c m := by
  have hsave : outcome ((RetryMarker.ofCommand c).save o.markerPath) m.files = (.ok (), t) ↔
      t = m.files.written (o.markerAt place) (RetryMarker.ofCommand c).encode := by
    rw [RetryMarker.save, fileMapError_eq_ok,
      FileM.overwrite_eq_ok hwork.leads hwork.markerPlain hplain.markerPath_parts]
    exact ⟨fun h => h.2.2, fun h => ⟨hwork.markerSize, hwork.marker, h⟩⟩
  rw [Session.Saves, marked]
  by_cases hverb : c.verb = .new
  · rw [if_neg fun h => h.1 hverb, if_pos hverb]
    exact ⟨fun h => by rw [h], fun h => congrArg Machine.files h⟩
  · rw [if_pos ⟨hverb, hwrite⟩, if_neg hverb, hsave]
    exact ⟨fun h => by rw [h], fun h => congrArg Machine.files h⟩

theorem get?_marked (o : SessionOptions) (place : Place) (c : Command) (m : Machine) (p : Place) :
    (o.marked place c m).files.get? p =
      if c.verb ≠ .new ∧ p = o.markerAt place then some (.file (RetryMarker.ofCommand c).encode)
      else m.files.get? p := by
  rw [marked]
  by_cases hverb : c.verb = .new
  · rw [if_pos hverb, if_neg fun h => h.1 hverb]
  · rw [if_neg hverb]
    show (m.files.written _ _).get? p = _
    rw [FileTree.get?_written _ (by simp [markerAt])]
    simp [hverb]

/-- A marker is at its place. -/
theorem within_marked (c : Command) (region : Nat → Prop) (hwork : o.Workspace m.files place) :
    Machine.Within (o.Spots place) region m (o.marked place c m) := by
  have hget := get?_marked o place c m
  rw [marked] at hget ⊢
  split_ifs at hget ⊢ with hverb
  · exact .refl m
  · refine ⟨rfl, rfl, rfl, rfl, rfl, ⟨[], rfl, fun i h => absurd h (Write.not_covered_nil i)⟩,
      fun p => ?_, fun p hp => ?_⟩
    · refine FileTree.directory_iff_of_get? (FileTree.get?_written m.files ?_ _) hwork.marker nofun p
      simp [markerAt]
    · rw [hget, if_neg fun h => hp (.inr h.2)]

theorem marked_eq (o : SessionOptions) (place : Place) (c : Command) (m : Machine) :
    o.marked place c m = { m with files := (o.marked place c m).files } := by
  rw [marked]
  split_ifs <;> rfl

theorem work_marked (hwork : o.Workspace m.files place) :
    o.Workspace (o.marked place c m).files place :=
  hwork.congr (within_marked c (fun _ => False) hwork).directories

/-- The marker is not in the stash. -/
theorem get?_stash_marked (name : String) :
    (o.marked place c m).files.get? (o.stashAt place ++ [name]) =
      m.files.get? (o.stashAt place ++ [name]) := by
  rw [get?_marked, if_neg fun h => o.stashAt_append_ne_markerAt place name h.2]

end Marked

end SessionOptions

namespace Session

open SessionOptions

variable {P : Primitives} {o : SessionOptions} {place : Place} {commands : List String}

/-! ## Skipping -/

/-- What is skipped are the commands on the first lines, apart from those that take new data. -/
def Skips (commands : List String) (k : Nat) (skip : RetrySkip) : Prop :=
  ∀ i c, instruction? commands i = some c → c.verb ≠ .new → (skip.skips c = true ↔ i < k)

/-- A session that finds the marker skips the commands on the first lines. -/
def MarkerSkips (o : SessionOptions) (commands : List String) (t : FileTree) (k : Nat) : Prop :=
  ∃ marker, RetryMarker.load t o.markerPath = .ok marker ∧
    Skips commands k (RetrySkip.resolve marker commands)

theorem not_skips_new {skip : RetrySkip} {c : Command} (hverb : c.verb = .new) :
    skip.skips c = false := by
  rw [RetrySkip.skips]
  split
  · rw [hverb]
    simp
  · rfl

theorem not_skips_none (c : Command) : RetrySkip.none.skips c = false := rfl

/-- A command is skipped on one of the first lines, or it is not. -/
theorem Skips.cases {i k : Nat} {skip : RetrySkip} (h : Skips commands k skip) {c : Command}
    (hc : instruction? commands i = some c) :
    skip.skips c = true ∧ c.verb ≠ .new ∧ i < k ∨
      skip.skips c = false ∧ (c.verb ≠ .new → k ≤ i) := by
  by_cases hverb : c.verb = .new
  · exact .inr ⟨not_skips_new hverb, fun h => absurd hverb h⟩
  · have hiff := h i c hc hverb
    rcases hskip : skip.skips c with _ | _
    · rw [hskip] at hiff
      exact .inr ⟨rfl, fun _ => Nat.not_lt.mp fun hlt => nomatch hiff.mpr hlt⟩
    · exact .inl ⟨rfl, hverb, hiff.mp hskip⟩

/-- A line without a marker of its own makes no difference. -/
theorem Skips.succ {k : Nat} {skip : RetrySkip} (h : Skips commands k skip)
    (hline : ∀ c, instruction? commands k = some c → c.verb = .new) :
    Skips commands (k + 1) skip := by
  intro i c hc hverb
  rw [h i c hc hverb]
  refine ⟨fun h => by omega, fun hi => ?_⟩
  rcases Nat.lt_succ_iff_lt_or_eq.mp hi with hi | rfl
  · exact hi
  · exact absurd (hline c hc) hverb

theorem MarkerSkips.succ {t : FileTree} {k : Nat} (h : MarkerSkips o commands t k)
    (hline : ∀ c, instruction? commands k = some c → c.verb = .new) :
    MarkerSkips o commands t (k + 1) := by
  obtain ⟨marker, hload, hskips⟩ := h
  exact ⟨marker, hload, hskips.succ hline⟩

/-- What the marker says depends on its file alone. -/
theorem MarkerSkips.congr (hplain : o.PlainPartition) {t t' : FileTree} {k : Nat}
    (h : MarkerSkips o commands t k) (hwork : o.Workspace t place) (hwork' : o.Workspace t' place)
    (hget : t'.get? (o.markerAt place) = t.get? (o.markerAt place)) :
    MarkerSkips o commands t' k := by
  obtain ⟨marker, hload, hskips⟩ := h
  refine ⟨marker, ?_, hskips⟩
  have hnode : t'.node o.markerPath = t.node o.markerPath := by
    rw [hwork'.leads.node hwork'.markerPlain hplain.markerPath_parts,
      hwork.leads.node hwork.markerPlain hplain.markerPath_parts]
    rw [markerAt] at hget
    rw [hget]
  rw [RetryMarker.load, FileTree.read, hnode]
  exact hload

/-- Without a marker nothing is skipped. -/
theorem markerSkips_zero (hplain : o.PlainPartition) {t : FileTree} (hwork : o.Workspace t place)
    (hget : t.get? (o.markerAt place) = none) : MarkerSkips o commands t 0 := by
  refine ⟨none, RetryMarker.load_of_noEntry ?_, fun i c _ _ => ?_⟩
  · rw [hwork.leads.node hwork.markerPlain hplain.markerPath_parts,
      if_neg (Nat.not_lt.mpr hwork.markerSize)]
    rw [markerAt] at hget
    rw [hget]
  · rw [RetrySkip.resolve, not_skips_none]
    simp

/-- **The marker of a command** makes a session skip the command and those before it. -/
theorem markerSkips_marked (hplain : o.PlainPartition) {m : Machine}
    (hwork : o.Workspace m.files place) {k : Nat} (hk : k < Decimal.limit64) {c : Command}
    (hc : instruction? commands k = some c) (hverb : c.verb ≠ .new) :
    MarkerSkips o commands (o.marked place c m).files (k + 1) := by
  obtain ⟨hindex, line, hline, htext⟩ := index_of_instruction? hc
  have hwork' := hwork.congr (within_marked c (fun _ => False) hwork).directories
  refine ⟨some (RetryMarker.ofCommand c), ?_, ?_⟩
  · refine RetryMarker.load_of_file hwork'.leads hwork'.markerPlain hplain.markerPath_parts
      hwork'.markerSize (by rw [RetryMarker.ofCommand, hindex]; exact hk) ?_
    have := get?_marked o place c m (o.markerAt place)
    rw [if_pos ⟨hverb, rfl⟩] at this
    exact this
  · rw [RetryMarker.ofCommand, hindex, htext, RetrySkip.resolve_self hline]
    intro i c' hc' hverb'
    obtain ⟨hindex', -⟩ := index_of_instruction? hc'
    have hskips : RetrySkip.skips ⟨some k⟩ c' = decide (i ≤ k) := by
      simp [RetrySkip.skips, hverb', hindex']
    rw [hskips, decide_eq_true_iff, Nat.lt_succ_iff]

/-! ## Histories -/

/-- What a line makes of a machine when its command is executed and its marker saved. -/
def Stepped (P : Primitives) (o : SessionOptions) (place : Place) (commands : List String) (k : Nat)
    (m m' : Machine) : Prop :=
  match instruction? commands k with
  | none => m' = m
  | some c => ∃ m₁, outcome (c.run P) m = (.ok (), m₁) ∧ m' = o.marked place c m₁

/-- The machines before each line of a fresh session, up to some line. -/
structure History (P : Primitives) (o : SessionOptions) (place : Place) (commands : List String)
    (count : Nat) (machine : Nat → Machine) : Prop where
  plain : o.PlainPartition
  live : (machine 0).canWrite = true
  base : (machine 0).stash.base = o.stashDir
  work : o.Workspace (machine 0).files place
  empty : NoEntries o (machine 0).files place
  unmarked : (machine 0).files.get? (o.markerAt place) = none
  step : ∀ k < count, Stepped P o place commands k (machine k) (machine (k + 1))
  readable : ∀ k < count, ∀ line e, commands[k]? = some line → Command.parse k line ≠ .error e

/-- The bytes that the command on a line may write. -/
def LineTargets (commands : List String) (k : Nat) (i : Nat) : Prop :=
  ∃ c, instruction? commands k = some c ∧ c.Targets i

/-- **A line changes nothing but the target of its command, the stash and the marker.** -/
theorem within_stepped (hplain : o.PlainPartition) {m m' : Machine} {k : Nat}
    (hlive : m.canWrite = true) (hbase : m.stash.base = o.stashDir)
    (hwork : o.Workspace m.files place) (h : Stepped P o place commands k m m') :
    Machine.Within (o.Spots place) (LineTargets commands k) m m' := by
  rw [Stepped] at h
  split at h
  · rw [h]
    exact .refl m
  · rename_i c hc
    obtain ⟨m₁, hrun, rfl⟩ := h
    have hwithin : Machine.Within (o.Spots place) (LineTargets commands k) m m₁ :=
      (Command.run_within hlive (hwork.sited hplain hbase) hrun).mono
        (fun _ => Or.inl) fun i hi => ⟨c, hc, hi⟩
    exact hwithin.trans (within_marked c _ (hwork.congr hwithin.directories))

namespace History

variable {count k : Nat} {machine : Nat → Machine}
  (h : History P o place commands count machine)

include h

theorem step_of_instruction? (hk : k < count) {c : Command}
    (hc : instruction? commands k = some c) :
    ∃ m₁, outcome (c.run P) (machine k) = (.ok (), m₁) ∧ machine (k + 1) = o.marked place c m₁ := by
  have := h.step k hk
  rw [Stepped, hc] at this
  exact this

theorem step_of_none (hk : k < count) (hc : instruction? commands k = none) :
    machine (k + 1) = machine k := by
  have := h.step k hk
  rw [Stepped, hc] at this
  exact this

/-- All that the lines so far changed. -/
theorem within_zero (hk : k ≤ count) :
    Machine.Within (o.Spots place) (fun _ => True) (machine 0) (machine k) := by
  induction k with
  | zero => exact .refl _
  | succ k ih =>
    have hwithin := ih (by omega)
    refine hwithin.trans ((within_stepped h.plain (hwithin.canWrite.trans h.live)
      (hwithin.stash ▸ h.base) (h.work.congr hwithin.directories) (h.step k hk)).mono
        (fun _ => id) fun _ _ => trivial)

theorem live_at (hk : k ≤ count) : (machine k).canWrite = true :=
  (h.within_zero hk).canWrite.trans h.live

theorem work_at (hk : k ≤ count) : o.Workspace (machine k).files place :=
  h.work.congr (h.within_zero hk).directories

theorem base_at (hk : k ≤ count) : (machine k).stash.base = o.stashDir := by
  rw [(h.within_zero hk).stash, h.base]

theorem sited_at (hk : k ≤ count) : (machine k).stash.Sited (machine k).files (o.stashAt place) :=
  (h.work_at hk).sited h.plain (h.base_at hk)

/-- **A line changes nothing but the target of its command, the stash and the marker.** -/
theorem within (hk : k < count) :
    Machine.Within (o.Spots place) (LineTargets commands k) (machine k) (machine (k + 1)) :=
  within_stepped h.plain (h.live_at (Nat.le_of_lt hk)) (h.base_at (Nat.le_of_lt hk)) (h.work_at (Nat.le_of_lt hk)) (h.step k hk)

/-- What the lines between two machines changed. -/
theorem within_of_le {j : Nat} (hjk : j ≤ k) (hk : k ≤ count) :
    Machine.Within (o.Spots place) (fun i => ∃ l, j ≤ l ∧ l < k ∧ LineTargets commands l i)
      (machine j) (machine k) := by
  induction k with
  | zero =>
    obtain rfl : j = 0 := by omega
    exact .refl _
  | succ k ih =>
    rcases Nat.le_succ_iff.mp hjk with hjk | rfl
    · exact ((ih hjk (by omega)).mono (fun _ => id) fun i ⟨l, hl, hlk, hi⟩ =>
        ⟨l, hl, by omega, hi⟩).trans ((h.within hk).mono (fun _ => id) fun i hi =>
        ⟨k, hjk, by omega, hi⟩)
    · exact .refl _

/-- Only `new` takes new data. -/
theorem newData_succ (hk : k < count)
    (hverb : ∀ c, instruction? commands k = some c → c.verb ≠ .new) :
    (machine (k + 1)).newData = (machine k).newData := by
  rcases hc : instruction? commands k with _ | c
  · rw [h.step_of_none hk hc]
  · obtain ⟨m₁, hrun, hmachine⟩ := h.step_of_instruction? hk hc
    rw [hmachine, marked, if_neg (hverb c hc)]
    have hfeed := Command.run_newData (h.live_at (Nat.le_of_lt hk)) (h.sited_at (Nat.le_of_lt hk))
      (hverb c hc) hrun
    exact hfeed

/-- **The marker of a history says how far it got.** -/
theorem markerSkips (hsize : count ≤ Decimal.limit64) (hk : k ≤ count) :
    MarkerSkips o commands (machine k).files k := by
  induction k with
  | zero => exact markerSkips_zero h.plain h.work h.unmarked
  | succ k ih =>
    have hkeep : ∀ {m' : Machine}, (∀ c, instruction? commands k = some c → c.verb = .new) →
        o.Workspace m'.files place →
        m'.files.get? (o.markerAt place) = (machine k).files.get? (o.markerAt place) →
        MarkerSkips o commands m'.files (k + 1) := fun hline hwork hget =>
      ((ih (by omega)).congr h.plain (h.work_at (by omega)) hwork hget).succ hline
    rcases hc : instruction? commands k with _ | c
    · rw [h.step_of_none hk hc]
      exact hkeep (by rw [hc]; exact nofun) (h.work_at (by omega)) rfl
    · obtain ⟨m₁, hrun, hmachine⟩ := h.step_of_instruction? hk hc
      have hwithin := Command.run_within (h.live_at (Nat.le_of_lt hk)) (h.sited_at (Nat.le_of_lt hk)) hrun
      have hwork₁ := (h.work_at (Nat.le_of_lt hk)).congr hwithin.directories
      by_cases hverb : c.verb = .new
      · rw [hmachine, marked, if_pos hverb]
        refine hkeep (fun c' hc' => ?_) hwork₁ (hwithin.elsewhere _ ?_)
        · rw [hc] at hc'
          rw [← Option.some.inj hc']
          exact hverb
        · rintro ⟨name, hname⟩
          exact o.stashAt_append_ne_markerAt place name hname.symm
      · rw [hmachine]
        exact markerSkips_marked h.plain hwork₁ (by omega) hc hverb

end History

/-! ## The history of a fresh session -/

/-- A run that was done with some lines was done with fewer before. -/
theorem reached_of_le {skip : RetrySkip} {r r' : Run} {j k : Nat} (hjk : j ≤ k)
    (h : outcome (runLines P o skip 0 (commands.take k)) r = (.ok (), r')) :
    ∃ r₁, outcome (runLines P o skip 0 (commands.take j)) r = (.ok (), r₁) := by
  induction k generalizing r' with
  | zero =>
    obtain rfl : j = 0 := by omega
    exact ⟨r', h⟩
  | succ k ih =>
    rcases Nat.le_succ_iff.mp hjk with hjk | rfl
    · rcases hline : commands[k]? with _ | line
      · rw [take_succ_of_none hline] at h
        exact ih hjk h
      · obtain ⟨r₁, h₁, -⟩ := (runLines_take_succ hline).mp h
        exact ih hjk h₁
    · exact ⟨r', h⟩

/-- A line that a session is done with without skipping it. -/
theorem stepped_of_runLine (hplain : o.PlainPartition) (hwrite : o.canWrite = true) {k : Nat}
    {line : String} (hline : commands[k]? = some line) {r r' : Run}
    (hlive : r.machine.canWrite = true) (hbase : r.machine.stash.base = o.stashDir)
    (hwork : o.Workspace r.machine.files place)
    (h : outcome (runLine P o RetrySkip.none k line) r = (.ok (), r')) :
    Stepped P o place commands k r.machine r'.machine ∧
      ∀ e, Command.parse k line ≠ .error e := by
  rw [Stepped]
  rcases hc : instruction? commands k with _ | c
  · have hparse : ∀ e, Command.parse k line ≠ .error e := by
      intro e he
      rw [runLine, he] at h
      cases h
    rw [runLine_idle hline hc hparse] at h
    exact ⟨congrArg (fun x => x.2.machine) h.symm, hparse⟩
  · rw [runLine_instruction hline hc, if_neg (by rw [not_skips_none]; exact Bool.false_ne_true)] at h
    obtain ⟨m, t, hrun, hsaves, hmachine⟩ := runCommand_eq_ok h
    have hwithin := Command.run_within hlive (hwork.sited hplain hbase) hrun
    obtain ⟨line', hline', hparse, -⟩ := instruction?_eq_some.mp hc
    obtain rfl : line = line' := by
      rw [hline] at hline'
      exact Option.some.inj hline'
    refine ⟨⟨m, hrun, ?_⟩, fun e he => by rw [hparse] at he; cases he⟩
    rw [hmachine, (saves_iff hplain hwrite (hwork.congr hwithin.directories)).mp hsaves]

/-- **Every fresh session that runs some lines has a history.** -/
theorem History.of_fresh (hretry : o.retry = false) (hwrite : o.canWrite = true)
    (hplain : o.PlainPartition) {lines : List String} {inputs : ScriptInputs} {w w' : World}
    (hwell : w.files.WellFormed) {p : Prepared} {count : Nat} {r : Run}
    (hprepare : outcome (prepare o lines inputs) w = (.ok p, w'))
    (hrun : outcome (runLines P o p.skip 0 (p.commands.take count))
      { machine := p.machine, progress := w'.progress } = (.ok (), r)) :
    ∃ place machine, History P o place p.commands count machine ∧ p.machine = machine 0 ∧
      p.skip = RetrySkip.none ∧ (∃ header used, ScriptHeader.parse lines = .ok (header, used) ∧
        p.commands = lines.drop used ∧ machine 0 = blankMachine o header true inputs w' ∧
        w'.device = w.device) ∧
      ∀ k ≤ count, ∃ r, Reaches P o lines inputs w k p r ∧ r.machine = machine k := by
  obtain ⟨header, used, place, hheader, hcommands, hskip, hmachine, hdevice, hwork, hempty,
    hunmarked⟩ := prepare_fresh hretry hwrite hplain hwell hprepare
  let start : Run := { machine := p.machine, progress := w'.progress }
  let reached (k : Nat) : Run := (outcome (runLines P o p.skip 0 (p.commands.take k)) start).2
  have hreached : ∀ k ≤ count, outcome (runLines P o p.skip 0 (p.commands.take k)) start =
      (.ok (), reached k) := by
    intro k hk
    obtain ⟨r₁, h₁⟩ := reached_of_le hk hrun
    have : reached k = r₁ := congrArg Prod.snd h₁
    rw [this]
    exact h₁
  have hlines : ∀ k < count, ∀ line, p.commands[k]? = some line →
      outcome (runLine P o p.skip k line) (reached k) = (.ok (), reached (k + 1)) := by
    intro k hk line hline
    obtain ⟨r₁, h₁, h₂⟩ := (runLines_take_succ hline).mp (hreached (k + 1) hk)
    rw [hreached k (Nat.le_of_lt hk)] at h₁
    obtain rfl : reached k = r₁ := congrArg Prod.snd h₁
    exact h₂
  have hhistory : ∀ k ≤ count,
      History P o place p.commands k fun k => (reached k).machine := by
    intro k
    induction k with
    | zero =>
      intro _
      have hzero : (reached 0).machine = blankMachine o header true inputs w' := hmachine
      exact ⟨hplain, by rw [hzero]; rfl, by rw [hzero]; rfl, by rw [hzero]; exact hwork,
        by rw [hzero]; exact hempty, by rw [hzero]; exact hunmarked, nofun, nofun⟩
    | succ k ih =>
      intro hk
      have h := ih (Nat.le_of_lt hk)
      have hstep : Stepped P o place p.commands k (reached k).machine (reached (k + 1)).machine ∧
          ∀ line e, p.commands[k]? = some line → Command.parse k line ≠ .error e := by
        rcases hline : p.commands[k]? with _ | line
        · refine ⟨?_, nofun⟩
          have hsame : reached (k + 1) = reached k := by
            simp only [reached, take_succ_of_none hline]
          have hnone : instruction? p.commands k = none := by rw [instruction?, hline]
          rw [Stepped, hnone, hsame]
        · have hrunLine := hlines k hk line hline
          rw [hskip] at hrunLine
          obtain ⟨hstep, hparse⟩ := stepped_of_runLine hplain hwrite hline
            (h.live_at (Nat.le_refl k)) (h.base_at (Nat.le_refl k)) (h.work_at (Nat.le_refl k))
            hrunLine
          exact ⟨hstep, fun line' e hline' => Option.some.inj hline' ▸ hparse e⟩
      exact { h with
        step := fun j hj => by
          rcases Nat.lt_succ_iff_lt_or_eq.mp hj with hj | rfl
          · exact h.step j hj
          · exact hstep.1
        readable := fun j hj => by
          rcases Nat.lt_succ_iff_lt_or_eq.mp hj with hj | rfl
          · exact h.readable j hj
          · exact hstep.2 }
  exact ⟨place, _, hhistory count (Nat.le_refl _), rfl, hskip,
    ⟨header, used, hheader, hcommands, hmachine, hdevice⟩,
    fun k hk => ⟨reached k, ⟨w', hprepare, hreached k hk⟩, rfl⟩⟩

end Session

end BlockUpdate
