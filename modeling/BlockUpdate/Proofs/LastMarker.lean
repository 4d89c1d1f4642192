import BlockUpdate.Proofs.History
import BlockUpdate.Proofs.Opening
import BlockUpdate.Proofs.ResumeEquivalence

/-!
# What the marker of a writing session names

A session saves the marker of each command that succeeds, except of those that take new data, and
does nothing else to the file. Where it stops, the marker is therefore that of the last such
command, or what the session found.

- `SessionOptions.Settled`: a machine of a writing session, with room for the marker.
- `Session.lastSaved?`: the command on the first lines whose marker was saved last.
- **`prepare_settles`**: how fresh and resumed sessions begin.
- **`settled_runLines`**: what the marker is when some lines are done.
- `TransferError.Stops`: errors of a command or of its line.
- **`runScript_stops`**: where a session stops with such an error.
- **`stopped_marker`**: what the marker is then.
-/

namespace BlockUpdate

open FileTree

namespace SessionOptions

variable {o : SessionOptions} {place : Place} {m : Machine}

/-! ## Machines of writing sessions -/

/-- A machine of a writing session: its stash is where it is to be, and there is room for the
marker beside it. -/
structure Settled (o : SessionOptions) (place : Place) (m : Machine) : Prop where
  lodged : o.Lodged place m
  work : o.Workspace m.files place

theorem settled_of_workspace (hplain : o.PlainPartition) (hwrite : o.canWrite = true)
    (hwork : o.Workspace m.files place) (hlive : m.canWrite = true)
    (hbase : m.stash.base = o.stashDir) : o.Settled place m where
  lodged :=
    { plain := hplain
      canWrite := hlive.trans hwrite.symm
      base := hbase.trans (baseDir_of_canWrite hwrite).symm
      leads := hwork.leads
      sited := by
        have hsited := hwork.sited hplain hbase
        rwa [baseAt, baseName, baseEnding, if_pos hwrite]
      markerPlain := hwork.markerPlain }
  work := hwork

/-- **However a command ends**, the stash stays where it is and the marker as it is. -/
theorem Settled.ran (h : o.Settled place m) (P : Primitives) (c : Command) :
    o.Settled place (outcome (c.run P) m).2 ∧
      (outcome (c.run P) m).2.files.get? (o.markerAt place) = m.files.get? (o.markerAt place) := by
  have htouched := Command.run_touched P c h.lodged.sited
  refine ⟨⟨h.lodged.ran P c, h.work.congr htouched.files.directories⟩,
    htouched.files.elsewhere _ ?_⟩
  rintro ⟨name, hname⟩
  exact o.baseAt_append_ne_markerAt place name hname.symm

theorem Settled.marked (h : o.Settled place m) (c : Command) :
    o.Settled place (o.marked place c m) := by
  refine ⟨?_, work_marked h.work⟩
  rw [marked_eq]
  exact h.lodged.congr rfl rfl fun q hq =>
    ((within_marked c (fun _ => False) h.work).directories q).mpr hq

end SessionOptions

namespace Session

open SessionOptions

variable {P : Primitives} {o : SessionOptions} {place : Place} {commands lines : List String}
  {inputs : ScriptInputs} {skip : RetrySkip} {r r' : Run} {w w' : World} {k : Nat}

/-! ## The beginning -/

/-- Where a marker can be looked for, there is room for it. -/
theorem marker_of_load {t : FileTree} (hplain : o.PlainPartition)
    (hleads : t.Leads o.workDir.below place) (hname : PlainName o.markerName)
    {marker : Option RetryMarker} (hload : RetryMarker.load t o.markerPath = .ok marker) :
    o.markerName.utf8ByteSize ≤ maxName ∧ t.get? (o.markerAt place) ≠ some .directory := by
  have hnode := hleads.node hname hplain.markerPath_parts
  have hsize : o.markerName.utf8ByteSize ≤ maxName := by
    refine Nat.not_lt.mp fun hlong => ?_
    rw [RetryMarker.load, FileTree.read, hnode, if_pos hlong] at hload
    cases hload
  refine ⟨hsize, fun hdir => ?_⟩
  rw [markerAt] at hdir
  rw [RetryMarker.load, FileTree.read, hnode, if_neg (Nat.not_lt.mpr hsize), hdir] at hload
  cases hload

theorem workspace_of_load {m : Machine} (hlodged : o.Lodged place m) (hwrite : o.canWrite = true)
    {marker : Option RetryMarker} (hload : RetryMarker.load m.files o.markerPath = .ok marker) :
    o.Workspace m.files place := by
  have hbase : o.baseAt place = o.stashAt place := by
    rw [baseAt, baseName, baseEnding, if_pos hwrite, stashAt, stashName]
  have hstash : m.files.Leads o.stashDir.parts (o.stashAt place) := by
    rw [← hbase, ← baseDir_of_canWrite hwrite, ← hlodged.base]
    exact hlodged.sited.leads
  obtain ⟨-, -, -, hstashName, -⟩ := leads_of_join (hlodged.plain.noSlash (by decide)) (by simp) hstash
  obtain ⟨hsize, hdir⟩ :=
    marker_of_load hlodged.plain hlodged.leads hlodged.markerPlain hload
  exact ⟨hlodged.leads, hstash, hstashName, hlodged.markerPlain, hsize, hdir⟩

/-- A file that is not a directory afterwards was not made into one. -/
theorem get?_of_grown {t t' : FileTree} (h : Grown t t') {q : Place}
    (hq : t'.get? q ≠ some .directory) : t'.get? q = t.get? q :=
  (h.get? q).resolve_right fun hmade => hq hmade.2

/-- **A writing session that gets to its commands** has found its marker, and a fresh one has
removed it. -/
theorem prepare_settles (hwrite : o.canWrite = true) (hplain : o.PlainPartition)
    (hwell : w.files.WellFormed) {p : Prepared}
    (h : outcome (prepare o lines inputs) w = (.ok p, w')) :
    ∃ place header used marker, ScriptHeader.parse lines = .ok (header, used) ∧
      p.commands = lines.drop used ∧ p.skip = RetrySkip.resolve marker p.commands ∧
      RetryMarker.load p.machine.files o.markerPath = .ok marker ∧ o.Settled place p.machine ∧
      p.machine.files.get? (o.markerAt place) =
        if o.retry then w.files.get? (o.markerAt place) else none := by
  obtain ⟨place, hlodged, -, hfiles, -⟩ := prepare_opens hplain hwell h
  cases hretry : o.retry with
  | false =>
    obtain ⟨header, used, place', hheader, hcommands, hskip, hmachine, -, hwork, -, hnone⟩ :=
      prepare_fresh hretry hwrite hplain hwell h
    rw [← hfiles] at hwork hnone
    obtain rfl := follow_unique hwork.leads.follow hlodged.leads.follow
    refine ⟨place', header, used, none, hheader, hcommands, hskip, RetryMarker.load_of_noEntry ?_,
      ⟨hlodged, hwork⟩, hnone⟩
    rw [hwork.leads.node hwork.markerPlain hplain.markerPath_parts,
      if_neg (Nat.not_lt.mpr hwork.markerSize)]
    rw [markerAt] at hnone
    rw [hnone]
  | true =>
    obtain ⟨header, used, t₁, stash, t₂, skip, t₃, machine, hheader, hmake, hopen, hskip, hmachine,
      rfl, rfl⟩ := prepare_eq_ok.mp h
    have hmachineFiles : machine.files = t₃ := hfiles
    rw [findSkip_resumed hretry] at hskip
    obtain ⟨hloaded, rfl⟩ := Prod.ext_iff.mp hskip
    rcases hload : RetryMarker.load t₂ o.markerPath with e | marker
    · rw [hload] at hloaded
      cases hloaded
    rw [hload] at hloaded
    obtain rfl := Except.ok.inj hloaded
    have hmarker : RetryMarker.load machine.files o.markerPath = .ok marker := by
      rw [hmachineFiles]
      exact hload
    have hwork := workspace_of_load hlodged hwrite hmarker
    refine ⟨place, header, used, marker, hheader, rfl, rfl, hmarker, ⟨hlodged, hwork⟩, ?_⟩
    -- nothing but directories was made
    rw [openStash_eq o hwrite, hretry] at hopen
    have hgrown := (FileM.makeDirectories_eq_ok hmake).1.trans
      (FileM.makeDirectories_eq_ok (open_kept_eq_ok.mp hopen).1).1
    have hkept := get?_of_grown hgrown (hmachineFiles ▸ hwork.marker)
    exact (congrArg (·.get? (o.markerAt place)) hmachineFiles).trans hkept

/-! ## The marker of the last line -/

/-- Whether the marker of a command is saved when it succeeds. -/
def Marks (skip : RetrySkip) (c : Command) : Prop := c.verb ≠ .new ∧ skip.skips c = false

instance (skip : RetrySkip) (c : Command) : Decidable (Marks skip c) :=
  inferInstanceAs (Decidable (_ ∧ _))

/-- The command whose marker was saved last when some lines are done, if one was. -/
def lastSaved? (skip : RetrySkip) (commands : List String) : Nat → Option Command
  | 0 => none
  | k + 1 => ((instruction? commands k).filter (Marks skip)).or (lastSaved? skip commands k)

theorem lastSaved?_succ (skip : RetrySkip) (commands : List String) (k : Nat) :
    lastSaved? skip commands (k + 1) =
      ((instruction? commands k).filter (Marks skip)).or (lastSaved? skip commands k) := rfl

/-- **The last command** among those whose markers are saved. -/
theorem lastSaved?_eq_some {c : Command} (h : lastSaved? skip commands k = some c) :
    ∃ j < k, instruction? commands j = some c ∧ Marks skip c ∧
      ∀ i < k, ∀ d, instruction? commands i = some d → Marks skip d → i ≤ j := by
  induction k with
  | zero => cases h
  | succ k ih =>
    rw [lastSaved?_succ] at h
    rcases hfound : (instruction? commands k).filter (Marks skip) with _ | d
    · rw [hfound, Option.none_or] at h
      obtain ⟨j, hj, hc, hmarks, hlast⟩ := ih h
      refine ⟨j, Nat.lt_succ_of_lt hj, hc, hmarks, fun i hi d hd hmarks' => ?_⟩
      rcases Nat.lt_succ_iff_lt_or_eq.mp hi with hi | rfl
      · exact hlast i hi d hd hmarks'
      · rw [hd, Option.filter_some, if_pos (by simpa using hmarks')] at hfound
        cases hfound
    · rw [hfound, Option.some_or] at h
      obtain rfl := Option.some.inj h
      obtain ⟨hc, hmarks⟩ := Option.filter_eq_some_iff.mp hfound
      exact ⟨k, Nat.lt_succ_self k, hc, by simpa using hmarks,
        fun i hi _ _ _ => Nat.le_of_lt_succ hi⟩

theorem lastSaved?_eq_none (h : lastSaved? skip commands k = none) {i : Nat} (hi : i < k)
    {c : Command} (hc : instruction? commands i = some c) : ¬ Marks skip c := by
  induction k with
  | zero => cases hi
  | succ k ih =>
    rw [lastSaved?_succ, Option.or_eq_none_iff] at h
    rcases Nat.lt_succ_iff_lt_or_eq.mp hi with hi | rfl
    · exact ih h.2 hi
    · intro hmarks
      have hfound := h.1
      rw [hc, Option.filter_some, if_pos (by simpa using hmarks)] at hfound
      cases hfound

/-- The file of a command's marker. -/
def markerFile (c : Command) : Node := .file (RetryMarker.ofCommand c).encode

/-- **One line**: the marker of its command is saved, or the marker stays. -/
theorem settled_runLine (hplain : o.PlainPartition) (hwrite : o.canWrite = true) {line : String}
    (hline : commands[k]? = some line) (hr : o.Settled place r.machine)
    (h : outcome (runLine P o skip k line) r = (.ok (), r')) :
    o.Settled place r'.machine ∧ r'.machine.files.get? (o.markerAt place) =
      (((instruction? commands k).filter (Marks skip)).map markerFile).or
        (r.machine.files.get? (o.markerAt place)) := by
  have hkept : r'.machine = r.machine → (instruction? commands k).filter (Marks skip) = none →
      o.Settled place r'.machine ∧ r'.machine.files.get? (o.markerAt place) =
        (((instruction? commands k).filter (Marks skip)).map markerFile).or
          (r.machine.files.get? (o.markerAt place)) := by
    intro hmachine hnone
    rw [hmachine, hnone]
    exact ⟨hr, rfl⟩
  rcases hc : instruction? commands k with _ | c
  · rw [← hc]
    refine hkept ?_ (by rw [hc]; rfl)
    rcases runLine_cases hline P o skip r with hmachine | ⟨c, hfound, -⟩
    · rwa [h] at hmachine
    · rw [hc] at hfound
      cases hfound
  rw [← hc]
  rw [runLine_instruction hline hc] at h
  split_ifs at h with hskip
  · refine hkept (congrArg (fun x => x.2.machine) h).symm ?_
    rw [hc, Option.filter_some, if_neg (by simp [Marks, hskip])]
  · obtain ⟨m, t, hrun, hsaves, hmachine⟩ := runCommand_eq_ok h
    obtain ⟨hran, hsame⟩ := hr.ran P c
    rw [hrun] at hran hsame
    rw [(saves_iff hplain hwrite hran.work).mp hsaves] at hmachine
    rw [hmachine, get?_marked, hsame]
    refine ⟨hran.marked c, ?_⟩
    by_cases hverb : c.verb = .new
    · rw [if_neg fun h => h.1 hverb, hc, Option.filter_some, if_neg (by simp [Marks, hverb])]
      rfl
    · rw [if_pos ⟨hverb, rfl⟩, hc, Option.filter_some, if_pos (by simp [Marks, hverb, hskip])]
      rfl

/-- **What the marker is when some lines are done**: that of the last command that has one, or what
it was. -/
theorem settled_runLines (hplain : o.PlainPartition) (hwrite : o.canWrite = true)
    (hr : o.Settled place r.machine)
    (h : outcome (runLines P o skip 0 (commands.take k)) r = (.ok (), r')) :
    o.Settled place r'.machine ∧ r'.machine.files.get? (o.markerAt place) =
      ((lastSaved? skip commands k).map markerFile).or
        (r.machine.files.get? (o.markerAt place)) := by
  induction k generalizing r' with
  | zero =>
    obtain rfl : r = r' := congrArg Prod.snd h
    exact ⟨hr, rfl⟩
  | succ k ih =>
    rcases hline : commands[k]? with _ | line
    · rw [take_succ_of_none hline] at h
      have hnone : instruction? commands k = none := by rw [instruction?, hline]
      rw [lastSaved?_succ, hnone]
      exact ih h
    · obtain ⟨r₁, h₁, h₂⟩ := (runLines_take_succ hline).mp h
      obtain ⟨hr₁, hmarker₁⟩ := ih h₁
      obtain ⟨hr', hmarker⟩ := settled_runLine hplain hwrite hline hr₁ h₂
      refine ⟨hr', ?_⟩
      rw [hmarker, hmarker₁, lastSaved?_succ]
      cases (instruction? commands k).filter (Marks skip) <;> rfl

/-! ## Errors -/

end Session

namespace TransferError

/-- A command stopped the session, or a line that cannot be read. -/
def Stops : TransferError → Prop
  | .command _ | .commandFailed .. | .retryRequested .. => True
  | _ => False

end TransferError

namespace Session

open SessionOptions

variable {P : Primitives} {o : SessionOptions} {place : Place} {commands lines : List String}
  {inputs : ScriptInputs} {skip : RetrySkip} {r r' : Run} {w w' : World} {k : Nat}
  {e : TransferError}

theorem not_stops_load {t : FileTree} {p : Path} (h : RetryMarker.load t p = .error e) :
    ¬ e.Stops := by
  rw [RetryMarker.load] at h
  split at h
  · split_ifs at h
    split at h <;> cases h
    exact id
  · split_ifs at h
    cases h
    exact id
  · cases h
    exact id

theorem not_stops_removeMarker {t t' : FileTree} {p : Path}
    (h : outcome (RetryMarker.remove p) t = (.error e, t')) : ¬ e.Stops := by
  rw [RetryMarker.remove, outcome_fileMapError, Prod.ext_iff, mapError_eq_error] at h
  obtain ⟨⟨e', -, rfl⟩, -⟩ := h
  exact id

theorem not_stops_findSkip {t t' : FileTree} (h : outcome (findSkip o commands) t = (.error e, t')) :
    ¬ e.Stops := by
  cases hretry : o.retry with
  | true =>
    rw [findSkip_resumed hretry] at h
    rcases hload : RetryMarker.load t o.markerPath with e' | marker <;> rw [hload] at h
    · obtain rfl : e' = e := Except.error.inj (congrArg Prod.fst h)
      exact not_stops_load hload
    · cases congrArg Prod.fst h
  | false =>
    rw [findSkip, hretry] at h
    cases hwrite : o.canWrite with
    | true =>
      rw [hwrite] at h
      rcases outcome_bind_eq_error.mp h with hremove | ⟨_, _, -, hpure⟩
      · exact not_stops_removeMarker hremove
      · cases congrArg Prod.fst hpure
    | false =>
      rw [hwrite] at h
      cases congrArg Prod.fst h

/-- What comes before the commands does not stop as they do. -/
theorem not_stops_prepare (h : outcome (prepare o lines inputs) w = (.error e, w')) : ¬ e.Stops := by
  obtain ⟨t, hfails, -⟩ := prepare_eq_error.mp h
  cases hfails with
  | skip _ _ _ hskip => exact not_stops_findSkip hskip
  | header | workDir | stash | machine => exact id

theorem not_stops_cleanUp {s : Stash} (h : outcome (cleanUp o s) w = (.error e, w')) :
    ¬ e.Stops := by
  rw [cleanUp] at h
  rcases outcome_bind_eq_error.mp h with h | ⟨_, w₁, -, h⟩
  · obtain ⟨_, _, -, rfl, -⟩ := sessionOnFiles_eq_error.mp h
    exact id
  · split_ifs at h
    · obtain ⟨_, _, hremove, rfl, -⟩ := sessionOnFiles_eq_error.mp h
      exact not_stops_removeMarker hremove
    · cases congrArg Prod.fst h

/-- **A session that got to its commands and fails**, fails in their lines or when it cleans up. -/
theorem runScript_error_cases {p : Prepared} {w₁ : World}
    (hprepare : outcome (prepare o lines inputs) w = (.ok p, w₁))
    (h : outcome (runScript P o lines inputs) w = (.error e, w')) :
    ∃ r, outcome (runLines P o p.skip 0 p.commands)
        { machine := p.machine, progress := w₁.progress } = (.error e, r) ∧ w' = r.world ∨
      outcome (runLines P o p.skip 0 p.commands)
        { machine := p.machine, progress := w₁.progress } = (.ok (), r) ∧
        outcome (cleanUp o p.machine.stash) r.world = (.error e, w') := by
  rw [runScript, outcome_bind_of_ok hprepare, runCommands] at h
  rw [outcome_bind, outcome_bind, outcome_onMachine] at h
  rcases hrun : outcome (runLines P o p.skip 0 p.commands)
    { machine := p.machine, progress := w₁.progress } with ⟨e' | ⟨⟩, r⟩ <;> rw [hrun] at h
  · obtain ⟨he, rfl⟩ := Prod.ext_iff.mp h
    obtain rfl : e' = e := Except.error.inj he
    exact ⟨r, .inl ⟨rfl, rfl⟩⟩
  · refine ⟨r, .inr ⟨rfl, ?_⟩⟩
    rcases outcome_bind_eq_error.mp h with hclean | ⟨_, w₃, -, hpure⟩
    · exact hclean
    · cases congrArg Prod.fst hpure

/-- **A session that stops** got to its commands, and stopped in their lines. -/
theorem runScript_stops (h : outcome (runScript P o lines inputs) w = (.error e, w'))
    (hstops : e.Stops) :
    ∃ p w₁ r, outcome (prepare o lines inputs) w = (.ok p, w₁) ∧
      outcome (runLines P o p.skip 0 p.commands)
        { machine := p.machine, progress := w₁.progress } = (.error e, r) ∧ w' = r.world := by
  rcases hprepare : outcome (prepare o lines inputs) w with ⟨e' | p, w₁⟩
  · rw [runScript, outcome_bind_of_error hprepare] at h
    obtain rfl : e' = e := Except.error.inj (congrArg Prod.fst h)
    exact absurd hstops (not_stops_prepare hprepare)
  · obtain ⟨r, ⟨hrun, rfl⟩ | ⟨-, hclean⟩⟩ := runScript_error_cases hprepare h
    · exact ⟨p, w₁, r, rfl, hrun, rfl⟩
    · exact absurd hstops (not_stops_cleanUp hclean)

/-! ## Where a session stops -/

/-- **Lines that fail** fail with one of them. -/
theorem runLines_take_eq_error (h : outcome (runLines P o skip 0 (commands.take k)) r = (.error e, r')) :
    ∃ j < k, ∃ line r₁, commands[j]? = some line ∧
      outcome (runLines P o skip 0 (commands.take j)) r = (.ok (), r₁) ∧
      outcome (runLine P o skip j line) r₁ = (.error e, r') := by
  induction k with
  | zero => cases congrArg Prod.fst h
  | succ k ih =>
    rcases hline : commands[k]? with _ | line
    · rw [take_succ_of_none hline] at h
      obtain ⟨j, hj, hrest⟩ := ih h
      exact ⟨j, Nat.lt_succ_of_lt hj, hrest⟩
    · rw [runLines_take_succ_bind hline] at h
      rcases outcome_bind_eq_error.mp h with h | ⟨_, r₁, h₁, h₂⟩
      · obtain ⟨j, hj, hrest⟩ := ih h
        exact ⟨j, Nat.lt_succ_of_lt hj, hrest⟩
      · exact ⟨k, Nat.lt_succ_self k, line, r₁, hline, h₁, h₂⟩

/-- A command that stops a session did not succeed. -/
theorem runCommand_stops {c : Command} (h : outcome (runCommand P o c) r = (.error e, r'))
    (hstops : e.Stops) :
    r'.machine = (outcome (c.run P) r.machine).2 ∧ (outcome (c.run P) r.machine).1 ≠ .ok () := by
  rcases hrun : outcome (c.run P) r.machine with ⟨failure | ⟨⟩, m⟩
  · refine ⟨?_, nofun⟩
    rw [runCommand, outcome_bind_of_ok (outcome_executeCommand P c r), hrun, Command.resultOf] at h
    cases hio : failure.isIo <;> rw [hio] at h <;> obtain rfl := congrArg Prod.snd h <;> rfl
  · -- only the saving of the marker can have failed
    obtain ⟨r₁, -, hcommand⟩ := runCommand_of_ok (o := o) hrun
    rw [hcommand] at h
    rcases outcome_bind_eq_error.mp h with h | ⟨_, r₂, -, h⟩
    · rw [outcome_saveMarker] at h
      split_ifs at h
      · obtain ⟨hsave, -⟩ := Prod.ext_iff.mp h
        simp only [RetryMarker.save, outcome_fileMapError, mapError_eq_error] at hsave
        obtain ⟨_, -, rfl⟩ := hsave
        exact hstops.elim
      · cases congrArg Prod.fst h
    · obtain ⟨r₃, hreport, -⟩ := report_machine c r₂
      rw [hreport] at h
      cases congrArg Prod.fst h

/-- **The line that stops a session** leaves the marker as it is. -/
theorem settled_stops {line : String} (hline : commands[k]? = some line)
    (hr : o.Settled place r.machine) (h : outcome (runLine P o skip k line) r = (.error e, r'))
    (hstops : e.Stops) :
    (o.Settled place r'.machine ∧
      r'.machine.files.get? (o.markerAt place) = r.machine.files.get? (o.markerAt place)) ∧
    ∀ c, instruction? commands k = some c → skip.skips c = false →
      (outcome (c.run P) r.machine).1 ≠ .ok () := by
  rcases hc : instruction? commands k with _ | c
  · refine ⟨?_, nofun⟩
    rcases runLine_cases hline P o skip r with hmachine | ⟨c, hfound, -⟩
    · rw [h] at hmachine
      rw [hmachine]
      exact ⟨hr, rfl⟩
    · rw [hc] at hfound
      cases hfound
  · rw [runLine_instruction hline hc] at h
    split_ifs at h with hskip
    · cases congrArg Prod.fst h
    obtain ⟨hmachine, hfailed⟩ := runCommand_stops h hstops
    rw [hmachine]
    refine ⟨hr.ran P c, fun d hd _ => ?_⟩
    rw [← Option.some.inj hd]
    exact hfailed

/-- The marker of a settled machine can be saved, so nothing else stops a line. -/
theorem stops_of_settled (hplain : o.PlainPartition) (hwrite : o.canWrite = true) {line : String}
    (hr : o.Settled place r.machine) (h : outcome (runLine P o skip k line) r = (.error e, r')) :
    e.Stops := by
  rw [runLine] at h
  rcases hparse : Command.parse k line with e' | _ | c <;> rw [hparse] at h
  · obtain rfl : TransferError.command e' = e := Except.error.inj (congrArg Prod.fst h)
    exact trivial
  · cases congrArg Prod.fst h
  simp only at h
  split_ifs at h
  · cases congrArg Prod.fst h
  · rcases hrun : outcome (c.run P) r.machine with ⟨failure | ⟨⟩, m⟩
    · rw [runCommand, outcome_bind_of_ok (outcome_executeCommand P c r), hrun,
        Command.resultOf] at h
      cases hio : failure.isIo <;> rw [hio] at h <;>
        obtain rfl := Except.error.inj (congrArg Prod.fst h) <;> exact trivial
    · obtain ⟨hran, -⟩ := hr.ran P c
      rw [hrun] at hran
      have hsaves := (saves_iff hplain hwrite hran.work (c := c)).mpr (marked_eq o place c m).symm
      obtain ⟨r₁, hdone, -⟩ := runCommand_executed hrun hsaves
      rw [hdone] at h
      cases congrArg Prod.fst h
  · cases congrArg Prod.fst h

/-! ## The last command that succeeded -/

/-- A session executes the command on a line, and it succeeds. -/
def SucceedsAt (P : Primitives) (o : SessionOptions) (lines : List String) (inputs : ScriptInputs)
    (w : World) (k : Nat) (c : Command) : Prop :=
  ∃ m, ExecutesAt P o lines inputs w k c m ∧ (outcome (c.run P) m).1 = .ok ()

/-- The last command of a session that succeeds and does not take new data. -/
structure LastSuccess (P : Primitives) (o : SessionOptions) (lines : List String)
    (inputs : ScriptInputs) (w : World) (k : Nat) (c : Command) : Prop where
  succeeds : SucceedsAt P o lines inputs w k c
  marks : c.verb ≠ .new
  last : ∀ j d, SucceedsAt P o lines inputs w j d → d.verb ≠ .new → j ≤ k

/-- A session is done with some lines, and not with the next one. -/
structure StopsAt (P : Primitives) (o : SessionOptions) (lines : List String)
    (inputs : ScriptInputs) (w : World) (k : Nat) (p : Prepared) (r : Run) : Prop where
  reaches : Reaches P o lines inputs w k p r
  ends : ∀ r', ¬ Reaches P o lines inputs w (k + 1) p r'
  fails : ∀ c, instruction? p.commands k = some c → p.skip.skips c = false →
    (outcome (c.run P) r.machine).1 ≠ .ok ()

namespace StopsAt

variable {p : Prepared} {c : Command} {j : Nat}

/-- **The commands that succeed** are those on the lines that a session is done with, unless it
skips them. -/
theorem succeedsAt_iff (h : StopsAt P o lines inputs w k p r) :
    SucceedsAt P o lines inputs w j c ↔
      j < k ∧ instruction? p.commands j = some c ∧ p.skip.skips c = false := by
  obtain ⟨w₁, hprepare, hrun⟩ := h.reaches
  constructor
  · rintro ⟨m, ⟨p', r', ⟨w', hprepare', hrun'⟩, hc, hskip, rfl⟩, hok⟩
    rw [hprepare] at hprepare'
    obtain ⟨rfl, rfl⟩ : p = p' ∧ w₁ = w' := by simpa using hprepare'
    refine ⟨?_, hc, hskip⟩
    by_contra hle
    rcases Nat.eq_or_lt_of_le (Nat.not_lt.mp hle) with rfl | hlt
    · rw [hrun] at hrun'
      obtain rfl : r = r' := congrArg Prod.snd hrun'
      exact h.fails c hc hskip hok
    · obtain ⟨r₁, hfurther⟩ := reached_of_le hlt hrun'
      exact h.ends r₁ ⟨w₁, hprepare, hfurther⟩
  · rintro ⟨hj, hc, hskip⟩
    obtain ⟨r₁, h₁⟩ := reached_of_le (Nat.succ_le_of_lt hj) hrun
    obtain ⟨line, hline, -⟩ := instruction?_eq_some.mp hc
    obtain ⟨r₂, h₂, hstep⟩ := (runLines_take_succ hline).mp h₁
    rw [runLine_instruction hline hc, if_neg (by rw [hskip]; exact Bool.false_ne_true)] at hstep
    obtain ⟨m, t, hok, -⟩ := runCommand_eq_ok hstep
    exact ⟨_, ⟨p, r₂, ⟨w₁, hprepare, h₂⟩, hc, hskip, rfl⟩, congrArg Prod.fst hok⟩

theorem lastSuccess_of_lastSaved? (h : StopsAt P o lines inputs w k p r)
    (hlast : lastSaved? p.skip p.commands k = some c) :
    ∃ j, LastSuccess P o lines inputs w j c ∧ instruction? p.commands j = some c := by
  obtain ⟨j, hj, hc, hmarks, hnone⟩ := lastSaved?_eq_some hlast
  refine ⟨j, ⟨h.succeedsAt_iff.mpr ⟨hj, hc, hmarks.2⟩, hmarks.1, fun i d hd hverb => ?_⟩, hc⟩
  obtain ⟨hi, hd, hskip⟩ := h.succeedsAt_iff.mp hd
  exact hnone i hi d hd ⟨hverb, hskip⟩

theorem new_of_lastSaved?_eq_none (h : StopsAt P o lines inputs w k p r)
    (hlast : lastSaved? p.skip p.commands k = none) (hc : SucceedsAt P o lines inputs w j c) :
    c.verb = .new := by
  obtain ⟨hj, hc, hskip⟩ := h.succeedsAt_iff.mp hc
  by_contra hverb
  exact lastSaved?_eq_none hlast hj hc ⟨hverb, hskip⟩

end StopsAt

/-- **Where a session stops** that got to its commands, and what the marker is then. -/
theorem stopsAt_of_runLines {p : Prepared} {w₁ : World} (hplain : o.PlainPartition)
    (hwrite : o.canWrite = true) (hprepare : outcome (prepare o lines inputs) w = (.ok p, w₁))
    (hstart : o.Settled place p.machine)
    (hrun : outcome (runLines P o p.skip 0 p.commands)
      { machine := p.machine, progress := w₁.progress } = (.error e, r')) :
    ∃ k r, StopsAt P o lines inputs w k p r ∧ o.Workspace r'.machine.files place ∧
      r'.machine.files.get? (o.markerAt place) =
        ((lastSaved? p.skip p.commands k).map markerFile).or
          (p.machine.files.get? (o.markerAt place)) := by
  rw [← List.take_length (l := p.commands)] at hrun
  obtain ⟨k, -, line, r, hline, hdone, hfailed⟩ := runLines_take_eq_error hrun
  obtain ⟨hsettled, hmarker⟩ := settled_runLines hplain hwrite hstart hdone
  obtain ⟨⟨hsettled', hsame⟩, hfails⟩ :=
    settled_stops hline hsettled hfailed (stops_of_settled hplain hwrite hsettled hfailed)
  refine ⟨k, r, ⟨⟨w₁, hprepare, hdone⟩, fun r₂ hfurther => ?_, hfails⟩, hsettled'.work,
    hsame.trans hmarker⟩
  obtain ⟨w₂, hprepare', hfurther⟩ := hfurther
  rw [hprepare] at hprepare'
  obtain rfl : w₁ = w₂ := congrArg Prod.snd hprepare'
  obtain ⟨r₁, hr₁, hok⟩ := (runLines_take_succ hline).mp hfurther
  rw [hdone] at hr₁
  obtain rfl : r = r₁ := congrArg Prod.snd hr₁
  rw [hfailed] at hok
  cases congrArg Prod.fst hok

/-- **What a session leaves that stops**: the marker of the last command that succeeded, or what
it found. -/
theorem stopped_marker (hwrite : o.canWrite = true) (hplain : o.PlainPartition)
    (hwell : w.files.WellFormed) (h : outcome (runScript P o lines inputs) w = (.error e, w'))
    (hstops : e.Stops) :
    ∃ k p r place header used, ScriptHeader.parse lines = .ok (header, used) ∧
      p.commands = lines.drop used ∧ StopsAt P o lines inputs w k p r ∧
      o.Workspace w'.files place ∧
      w'.files.get? (o.markerAt place) = ((lastSaved? p.skip p.commands k).map markerFile).or
        (if o.retry then w.files.get? (o.markerAt place) else none) := by
  obtain ⟨p, w₁, r', hprepare, hrun, rfl⟩ := runScript_stops h hstops
  obtain ⟨place, header, used, -, hheader, hcommands, -, -, hstart, hfound⟩ :=
    prepare_settles hwrite hplain hwell hprepare
  obtain ⟨k, r, hstopsAt, hwork, hmarker⟩ :=
    stopsAt_of_runLines hplain hwrite hprepare hstart hrun
  exact ⟨k, p, r, place, header, used, hheader, hcommands, hstopsAt, hwork, by
    rw [← hfound]
    exact hmarker⟩

/-- **A session that succeeds leaves neither marker nor stash.** -/
theorem finished_marker (hwrite : o.canWrite = true) (hplain : o.PlainPartition)
    (hwell : w.files.WellFormed) {summary : Summary}
    (h : outcome (runScript P o lines inputs) w = (.ok summary, w')) :
    w'.files.node o.markerPath = .error (.errno Errno.noEntry) ∧
      w'.files.node o.stashDir = .error (.errno Errno.noEntry) := by
  obtain ⟨p, w₁, r, hprepare, hrun, hclean, -⟩ := runScript_eq_ok.mp h
  obtain ⟨place, -, -, -, -, -, -, -, hstart, -⟩ := prepare_settles hwrite hplain hwell hprepare
  rw [← List.take_length (l := p.commands)] at hrun
  have hend := (settled_runLines hplain hwrite hstart hrun).1
  have hbase : p.machine.stash.base = o.stashDir :=
    hstart.lodged.base.trans (SessionOptions.baseDir_of_canWrite hwrite)
  exact (finished_of_cleanUp hwrite hplain (w := r.world) hend.work hbase hclean).2

end Session

end BlockUpdate
