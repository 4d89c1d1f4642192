import BlockUpdate.Proofs.Entries

/-!
# How a session begins

Writing sessions keep their stash in one directory, and dry runs in another beside it. Whatever its
kind, a session that gets to its commands has its stash at a place and counts what is in it; and
from then on nothing that a command or a marker does moves the stash.

- `SessionOptions.baseDir`: the directory in which a session keeps its stash.
- `SessionOptions.Lodged`: a machine whose stash is there.
- `Machine.Tallied`: the counters of a machine say what its stash holds.
- **`Lodged.ran`**, **`Lodged.saved`**: a machine stays lodged, however a command or the saving of a
  marker ends.
- **`prepare_opens`**: every session begins lodged and tallied, and a fresh one without entries.
-/

namespace BlockUpdate

open FileTree

namespace SessionOptions

/-! ## Where a session keeps its stash -/

/-- What follows the partition in the name of the directory. -/
def baseEnding (o : SessionOptions) : String := if o.canWrite then "_tmp" else "_verify_tmp"

/-- The name of the directory in which a session keeps its stash. -/
def baseName (o : SessionOptions) : String := o.partition ++ o.baseEnding

/-- The directory in which a session keeps its stash. -/
def baseDir (o : SessionOptions) : Path := o.workDir.join o.baseName

/-- That directory in the directory at a place. -/
def baseAt (o : SessionOptions) (place : Place) : Place := place ++ [o.baseName]

variable {o : SessionOptions} {t t' : FileTree} {place : Place} {m m' : Machine}

theorem baseDir_of_canWrite (h : o.canWrite = true) : o.baseDir = o.stashDir := by
  rw [baseDir, baseName, baseEnding, if_pos h, stashDir]

theorem baseDir_of_dry (h : o.canWrite = false) : o.baseDir = o.scratchDir := by
  rw [baseDir, baseName, baseEnding, if_neg (by rw [h]; exact Bool.false_ne_true), scratchDir]

theorem PlainPartition.baseName (h : o.PlainPartition) : '/' ∉ o.baseName.toList := by
  rw [SessionOptions.baseName, baseEnding]
  split_ifs <;> exact h.noSlash (by decide)

theorem length_baseName (o : SessionOptions) : 4 ≤ o.baseName.toList.length := by
  rw [baseName, baseEnding, String.toList_append, List.length_append]
  split_ifs
  · have : "_tmp".toList.length = 4 := by decide
    omega
  · have : "_verify_tmp".toList.length = 11 := by decide
    omega

/-- An entry is not the marker. -/
theorem baseAt_append_ne_markerAt (o : SessionOptions) (place : Place) (name : String) :
    o.baseAt place ++ [name] ≠ o.markerAt place := by
  intro heq
  have := congrArg List.length heq
  simp [baseAt, markerAt] at this

/-- A machine of a session, whose stash is where the session keeps it. -/
structure Lodged (o : SessionOptions) (place : Place) (m : Machine) : Prop where
  plain : o.PlainPartition
  canWrite : m.canWrite = o.canWrite
  base : m.stash.base = o.baseDir
  leads : m.files.Leads o.workDir.below place
  sited : m.stash.Sited m.files (o.baseAt place)
  markerPlain : PlainName o.markerName

namespace Lodged

/-- A machine with the same directories is lodged too. -/
theorem congr (h : o.Lodged place m) (hcanWrite : m'.canWrite = m.canWrite)
    (hstash : m'.stash = m.stash)
    (hmore : ∀ q, m.files.get? q = some .directory → m'.files.get? q = some .directory) :
    o.Lodged place m' where
  plain := h.plain
  canWrite := hcanWrite.trans h.canWrite
  base := by rw [hstash, h.base]
  leads := h.leads.mono hmore
  sited := hstash ▸ h.sited.mono hmore
  markerPlain := h.markerPlain

/-- **However a command ends**, the stash is where it was. -/
theorem ran (h : o.Lodged place m) (P : Primitives) (c : Command) :
    o.Lodged place (outcome (c.run P) m).2 := by
  have htouched := Command.run_touched P c h.sited
  exact h.congr htouched.canWrite htouched.stash fun q => (htouched.files.directories q).mpr

/-- **Saving a marker** changes the marker at most, also when it fails. -/
theorem saved_get? (h : o.Lodged place m) (c : Command) {q : Place} (hq : q ≠ o.markerAt place) :
    (outcome ((RetryMarker.ofCommand c).save o.markerPath) m.files).2.get? q = m.files.get? q := by
  rw [RetryMarker.save, outcome_fileMapError]
  rcases FileM.outcome_overwrite h.leads h.markerPlain h.plain.markerPath_parts
    (RetryMarker.ofCommand c).encode with ⟨-, -, hrun⟩ | ⟨-, e, hrun⟩ <;> rw [hrun]
  exact (get?_written m.files (by simp) _ q).trans (if_neg hq)

/-- Saving a marker leaves the directories. -/
theorem saved (h : o.Lodged place m) (c : Command) :
    o.Lodged place { m with
      files := (outcome ((RetryMarker.ofCommand c).save o.markerPath) m.files).2 } := by
  refine h.congr rfl rfl fun q hq => ?_
  rw [RetryMarker.save, outcome_fileMapError]
  rcases FileM.outcome_overwrite h.leads h.markerPlain h.plain.markerPath_parts
    (RetryMarker.ofCommand c).encode with ⟨-, hdir, hrun⟩ | ⟨-, e, hrun⟩ <;> rw [hrun]
  · exact (Stash.touched_written hdir _).directories q |>.mpr hq
  · exact hq

end Lodged

end SessionOptions

/-! ## What a session counts -/

namespace Machine

/-- The counters say what the stash at a place holds. -/
structure Tallied (place : Place) (m : Machine) : Prop where
  entries : m.stashedEntries = (Stash.held m.files place).length
  blocks : m.stashedBlocks = m.stash.heldBlocks m.files place

end Machine

namespace Session

open SessionOptions

variable {P : Primitives} {o : SessionOptions} {t t' : FileTree} {place : Place}

/-! ## Opening the stash -/

/-- A stash that is not to be wiped is taken as it is. -/
theorem open_kept_eq_ok {base : Path} {s : Stash} :
    outcome (Stash.open_ base false) t = (.ok s, t') ↔
      outcome (FileM.makeDirectories base) t = (.ok (), t') ∧ s = ⟨base, !t.isDirectory base⟩ := by
  simp [open_eq_ok]

/-- A stash that is opened is where it is to be. -/
theorem open_lodges (hplain : o.PlainPartition) {wipe : Bool} {s : Stash}
    (h : outcome (Stash.open_ o.baseDir wipe) t = (.ok s, t')) :
    s.base = o.baseDir ∧ ∃ place, t'.Leads o.workDir.below place ∧
      t'.Leads o.baseDir.parts (o.baseAt place) ∧ PlainName o.baseName := by
  obtain ⟨t₁, -, hmake, rfl⟩ := open_eq_ok.mp h
  obtain ⟨-, -, q, hleads⟩ := FileM.makeDirectories_eq_ok hmake
  obtain ⟨place, rfl, hwork, hname, -⟩ := leads_of_join hplain.baseName o.length_baseName hleads
  exact ⟨rfl, place, hwork, hleads, hname⟩

/-- Copying entries touches the stash only that they are copied to, however it ends. -/
theorem touched_copyEntries (source : Stash) {target : Stash} (htarget : target.Sited t place)
    (ids : List String) : Leaves (Stash.Touched place) (copyEntries source target ids) t := by
  induction ids generalizing t with
  | nil => exact Leaves.pure ()
  | cons id rest ih =>
    refine Leaves.get_bind ?_
    cases source.entrySize? t id with
    | none => exact ih htarget
    | some size =>
      refine Leaves.bind (refl_of (Stash.Touched place) t) fun found t₁ hlook _ => ?_
      obtain ⟨-, rfl⟩ := fileLook_eq_ok.mp hlook
      cases found with
      | none => exact ih htarget
      | some data =>
        exact Leaves.bind (Stash.touched_store htarget id data) fun _ t₂ _ htouched =>
          ih (htouched.sited htarget)

/-- **A dry run opens an empty stash**, and one that resumes copies into it the entries of the
partition's own. -/
theorem openStash_dry_eq_ok (hdry : o.canWrite = false) {s : Stash} :
    outcome (openStash o) t = (.ok s, t') ↔
      ∃ t₁, outcome (Stash.open_ o.scratchDir true) t = (.ok s, t₁) ∧
        if o.retry = true ∧ t₁.isDirectory o.stashDir = true then
          ∃ kept t₂ ids, outcome (Stash.open_ o.stashDir false) t₁ = (.ok kept, t₂) ∧
            kept.entries t₂ = .ok ids ∧ outcome (copyEntries kept s ids) t₂ = (.ok (), t')
        else t' = t₁ := by
  have hcond : ∀ t₁ : FileTree, (o.retry && t₁.isDirectory o.stashDir) = true ↔
      o.retry = true ∧ t₁.isDirectory o.stashDir = true := fun t₁ => Bool.and_eq_true_iff
  rw [openStash, if_neg (by rw [hdry]; exact Bool.false_ne_true), outcome_bind_eq_ok]
  constructor
  · rintro ⟨scratch, t₁, hopen, h⟩
    rw [outcome_get_bind] at h
    by_cases hcopy : o.retry = true ∧ t₁.isDirectory o.stashDir = true
    · rw [if_pos ((hcond t₁).mpr hcopy)] at h
      obtain ⟨kept, t₂, hkept, h⟩ := outcome_bind_eq_ok.mp h
      obtain ⟨ids, _, hlook, h⟩ := outcome_bind_eq_ok.mp h
      obtain ⟨hids, rfl⟩ := fileLook_eq_ok.mp hlook
      obtain ⟨⟨⟩, _, hcopied, h⟩ := outcome_bind_eq_ok.mp h
      obtain ⟨rfl, rfl⟩ : scratch = s ∧ _ = t' := by simpa using h
      exact ⟨t₁, hopen, by rw [if_pos hcopy]; exact ⟨kept, t₂, ids, hkept, hids, hcopied⟩⟩
    · rw [if_neg fun h => hcopy ((hcond t₁).mp h)] at h
      obtain ⟨rfl, rfl⟩ : scratch = s ∧ t₁ = t' := by simpa using h
      exact ⟨t₁, hopen, by rw [if_neg hcopy]⟩
  · rintro ⟨t₁, hopen, h⟩
    refine ⟨s, t₁, hopen, ?_⟩
    rw [outcome_get_bind]
    split_ifs at h with hcopy
    · obtain ⟨kept, t₂, ids, hkept, hids, hcopied⟩ := h
      rw [if_pos ((hcond t₁).mpr hcopy), outcome_bind_of_ok hkept,
        outcome_bind_of_ok (fileLook_eq_ok.mpr ⟨hids, rfl⟩), outcome_bind_of_ok hcopied]
      rfl
    · rw [if_neg fun h => hcopy ((hcond t₁).mp h), h]
      rfl

/-- The directory of a stash. -/
theorem sited_of_leads {p : Path} {name : String} (hname : PlainName name) {s : Stash}
    (hs : s.base = p.join name) (h : t.Leads (p.join name).parts place) : s.Sited t place := by
  have hparts := Path.parts_join p hname.noSlash
  refine ⟨hs ▸ h, ?_, ?_⟩ <;> rw [hs]
  · rw [Path.isEmpty, hparts]
    simp [hname.ne_empty]
  · exact Path.below_of_parts hparts hname.ne_empty

/-- **The stash of a session**, once it is open, is where the session keeps it; that of a fresh
session has no entries. -/
theorem openStash_opens (hplain : o.PlainPartition) (hwell : t.WellFormed)
    (hwork : ∃ place, t.Leads o.workDir.parts place) {s : Stash}
    (h : outcome (openStash o) t = (.ok s, t')) :
    s.base = o.baseDir ∧ ∃ place, t'.Leads o.workDir.below place ∧
      s.Sited t' (o.baseAt place) ∧ PlainName o.baseName ∧ (o.retry = false →
        ∀ node ∈ t'.nodes, ∀ name, node.1 = o.baseAt place ++ [name] → node.2 = .directory) := by
  cases hwrite : o.canWrite with
  | true =>
    rw [openStash_eq o hwrite, ← baseDir_of_canWrite hwrite] at h
    obtain ⟨hbase, place, hleads, hstash, hname⟩ := open_lodges hplain h
    refine ⟨hbase, place, hleads, sited_of_leads hname hbase hstash, hname, fun hfresh => ?_⟩
    rw [hfresh] at h
    obtain ⟨-, place', hleads', -, -, hnone⟩ :=
      open_wiped hwell hwork hplain.baseName o.length_baseName h
    obtain rfl := follow_unique hleads.follow hleads'.follow
    exact hnone
  | false =>
    obtain ⟨t₁, hopen, h⟩ := (openStash_dry_eq_ok hwrite).mp h
    rw [← baseDir_of_dry hwrite] at hopen
    obtain ⟨hs, place, hleads, hstash, hname, hnone⟩ :=
      open_wiped hwell hwork hplain.baseName o.length_baseName hopen
    have hbase : s.base = o.baseDir := congrArg Stash.base hs
    have hsited : s.Sited t₁ (o.baseAt place) := sited_of_leads hname hbase hstash
    refine ⟨hbase, place, ?_⟩
    split_ifs at h with hcopy
    · obtain ⟨kept, t₂, ids, hkept, -, hcopied⟩ := h
      obtain ⟨hgrown, -⟩ := FileM.makeDirectories_eq_ok (open_kept_eq_ok.mp hkept).1
      have hsited₂ := hsited.mono fun q => hgrown.directory
      have htouched := touched_copyEntries kept hsited₂ ids
      rw [Leaves, hcopied] at htouched
      refine ⟨hleads.mono fun q hq => ?_, htouched.sited hsited₂, hname, fun hfresh => ?_⟩
      · exact (htouched.directories q).mpr (hgrown.directory hq)
      · rw [hfresh] at hcopy
        cases hcopy.1
    · rw [h]
      exact ⟨hleads, hsited, hname, fun _ => hnone⟩

/-! ## Preparation -/

/-- What is to be skipped is found without a change, or after the marker was removed. -/
theorem findSkip_cases {commands : List String} {skip : RetrySkip}
    (h : outcome (findSkip o commands) t = (.ok skip, t')) :
    t' = t ∨ o.retry = false ∧ o.canWrite = true ∧
      outcome (FileM.removeIfPresent o.markerPath) t = (.ok (), t') := by
  cases hretry : o.retry with
  | true =>
    rw [findSkip_resumed hretry] at h
    exact .inl (congrArg Prod.snd h).symm
  | false =>
    cases hwrite : o.canWrite with
    | true => exact .inr ⟨rfl, rfl, ((findSkip_fresh hretry hwrite).mp h).1⟩
    | false =>
      rw [findSkip, hretry, hwrite] at h
      exact .inl (congrArg Prod.snd h).symm

/-- A stash without files has no entries. -/
theorem held_eq_nil (h : ∀ node ∈ t.nodes, ∀ name, node.1 = place ++ [name] → node.2 = .directory) :
    Stash.held t place = [] := by
  refine List.eq_nil_iff_forall_not_mem.mpr fun entry hentry => ?_
  have := h _ (Stash.mem_held.mp hentry).1 _ rfl
  cases this

/-- **Every session begins with its stash in place**, and has counted what is in it; a fresh one
begins without entries. -/
theorem prepare_opens (hplain : o.PlainPartition) {lines : List String} {inputs : ScriptInputs}
    {w w' : World} (hwell : w.files.WellFormed) {p : Prepared}
    (h : outcome (prepare o lines inputs) w = (.ok p, w')) :
    ∃ place, o.Lodged place p.machine ∧ p.machine.Tallied (o.baseAt place) ∧
      p.machine.files = w'.files ∧ p.machine.device = w.device ∧ w'.device = w.device ∧
      (o.retry = false → Stash.held p.machine.files (o.baseAt place) = []) := by
  obtain ⟨header, used, t₁, stash, t₂, skip, t₃, machine, -, hmake, hopen, hskip, hmachine, rfl,
    rfl⟩ := prepare_eq_ok.mp h
  obtain ⟨-, hwell₁, hwork⟩ := FileM.makeDirectories_eq_ok hmake
  obtain ⟨hbase, place, hleads, hsited, hname, hnone⟩ :=
    openStash_opens hplain (hwell₁ hwell) hwork hopen
  have hmarkerName : PlainName o.markerName :=
    plainName_of_plainName hplain hname (by decide) (by decide) (by decide)
  -- removing the marker takes no directory away, and adds no file
  have hskipped : (∀ q, t₂.get? q = some .directory → t₃.get? q = some .directory) ∧
      ∀ node ∈ t₃.nodes, node ∈ t₂.nodes := by
    rcases findSkip_cases hskip with rfl | ⟨-, -, hremove⟩
    · exact ⟨fun _ => id, fun _ => id⟩
    · obtain ⟨-, hdir, rfl⟩ :=
        (FileM.removeIfPresent_eq_ok hleads hmarkerName hplain.markerPath_parts).mp hremove
      refine ⟨fun q => (directory_iff_of_get? (get?_removed t₂ hdir) hdir (by simp) q).mpr,
        fun node hnode => ?_⟩
      rw [removed] at hnode
      split at hnode
      · exact (List.mem_filter.mp hnode).1
      · exact hnode
  have hheld : o.retry = false → Stash.held t₃ (o.baseAt place) = [] := fun hfresh =>
    held_eq_nil fun node hnode => hnone hfresh node (hskipped.2 node hnode)
  let blank : Machine :=
    { device := w.device
      files := t₃
      stash
      header
      canWrite := o.canWrite
      allowFileErase := o.allowFileErase
      patchData := inputs.patchData
      newData := inputs.newData.map Feed.start }
  have hlodged : o.Lodged place blank :=
    ⟨hplain, rfl, hbase, hleads.mono hskipped.1, hsited.mono hskipped.1, hmarkerName⟩
  cases hretry : o.retry with
  | true =>
    have hcounted : .ok machine = (.ok (blank.counted (o.baseAt place)) : Except StashError Machine) := by
      rw [← Machine.countStash_eq hlodged.sited, ← hmachine, startMachine, if_pos hretry]
    obtain rfl := Except.ok.inj hcounted
    exact ⟨place, hlodged.congr rfl rfl fun _ => id, ⟨Nat.zero_add _, Nat.zero_add _⟩, rfl, rfl,
      rfl, fun hfresh => by cases hfresh⟩
  | false =>
    rw [startMachine, hretry] at hmachine
    obtain rfl : blank = machine := Except.ok.inj hmachine
    have hempty : Stash.held blank.files (o.baseAt place) = [] := hheld hretry
    refine ⟨place, hlodged, ⟨?_, ?_⟩, rfl, rfl, rfl, fun _ => hempty⟩
    · rw [hempty]
      rfl
    · rw [Stash.heldBlocks, hempty]
      rfl

end Session

end BlockUpdate
