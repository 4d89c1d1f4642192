import BlockUpdate.Proofs.ObliviousCommands
import BlockUpdate.Proofs.PartitionIsolation

/-!
# What earlier sessions left behind

A fresh session wipes its stash and removes the marker, and it never looks at the stash of the other
mode. So what earlier sessions on its partition left behind makes no difference to it.

- `SessionOptions.leftover`: the places where sessions on a partition leave something behind.
- `SessionOptions.Littered`: a work directory in which they may have done so.
- **`Session.runScript_without`**: a fresh session ends as it does where nothing was left behind.
- **`Session.runScript_ignores_leftovers`**: two sessions among different leftovers end in the same
  way, and with the same files but for the leftovers that they have nothing to do with.
-/

namespace BlockUpdate

open FileTree

namespace SessionOptions

variable {o : SessionOptions} {place q : Place} {t : FileTree}

/-! ## Leftovers -/

/-- The name of the stash directory of dry runs. -/
def scratchName (o : SessionOptions) : String := o.partition ++ "_verify_tmp"

/-- The stash directory of dry runs in the directory at a place. -/
def scratchAt (o : SessionOptions) (place : Place) : Place := place ++ [o.scratchName]

/-- The places where sessions on a partition leave something behind. -/
def leftover (o : SessionOptions) (place q : Place) : Bool :=
  decide (o.stashAt place <+: q ∨ o.scratchAt place <+: q ∨ q = o.markerAt place)

/-- Those that are left when a session has wiped its stash. -/
def unopened (o : SessionOptions) (place q : Place) : Bool :=
  o.leftover place q && !decide (o.baseAt place <+: q)

/-- Those that a session has nothing to do with. -/
def foreign (o : SessionOptions) (place q : Place) : Bool :=
  o.unopened place q && !decide (o.canWrite = true ∧ q = o.markerAt place)

/-- Whether a name can be that of something in a directory. -/
structure Usable (name : String) : Prop where
  plain : PlainName name
  size : name.utf8ByteSize ≤ maxName

/-- A work directory in which sessions on a partition may have left their stashes and a marker
behind, with any contents. -/
structure Littered (o : SessionOptions) (place : Place) (t : FileTree) : Prop where
  wellFormed : t.WellFormed
  leads : (t.without (o.leftover place)).Leads o.workDir.parts place
  stash : t.get? (o.stashAt place) = none ∨
    t.get? (o.stashAt place) = some .directory ∧ Usable o.stashName
  scratch : t.get? (o.scratchAt place) = none ∨
    t.get? (o.scratchAt place) = some .directory ∧ Usable o.scratchName
  marker : t.get? (o.markerAt place) = none ∨
    (∃ data, t.get? (o.markerAt place) = some (.file data)) ∧ Usable o.markerName

/-- What is left behind where a session keeps its stash. -/
theorem Littered.base (h : o.Littered place t) :
    t.get? (o.baseAt place) = none ∨
      t.get? (o.baseAt place) = some .directory ∧ Usable o.baseName := by
  have hstash := h.stash
  have hscratch := h.scratch
  rw [stashAt, stashName] at hstash
  rw [scratchAt, scratchName] at hscratch
  rw [baseAt, baseName, baseEnding]
  split_ifs
  · exact hstash
  · exact hscratch

theorem baseAt_ne_markerAt (o : SessionOptions) (place : Place) :
    o.baseAt place ≠ o.markerAt place := by
  intro heq
  exact o.baseName_ne_markerName o.partition (by simpa [baseAt, markerAt, markerName] using heq)

theorem leftover_of_base (h : o.baseAt place <+: q) : o.leftover place q = true := by
  rw [leftover, decide_eq_true_eq]
  rw [baseAt, baseName, baseEnding] at h
  split_ifs at h
  · exact .inl h
  · exact .inr (.inl h)

theorem unopened_of_base (h : o.baseAt place <+: q) : o.unopened place q = false := by
  rw [unopened, decide_eq_true h, Bool.not_true, Bool.and_false]

end SessionOptions

/-- A world without the files at hidden places. -/
def World.without (w : World) (hidden : Place → Bool) : World :=
  { w with files := w.files.without hidden }

namespace Session

open SessionOptions

variable {P : Primitives} {o : SessionOptions} {skip : RetrySkip} {hidden : Place → Bool}
  {base : FileTree} {stash : Stash} {place : Place}

/-! ## Runs -/

/-- A run without the files at hidden places. -/
def Run.without (r : Run) (hidden : Place → Bool) : Run :=
  { r with machine := r.machine.without hidden }

/-- A run whose machine has a given stash, at a place that is not hidden. -/
def Run.Shows (hidden : Place → Bool) (base : FileTree) (stash : Stash) (r : Run) : Prop :=
  r.machine.Shows hidden base stash

/-- Neither the stash of a session nor its marker is hidden. -/
structure Apart (o : SessionOptions) (place : Place) (hidden : Place → Bool) (base : FileTree)
    (stash : Stash) : Prop where
  plain : o.PlainPartition
  leads : base.Leads o.workDir.below place
  sited : stash.Sited base (o.baseAt place)
  markerPlain : PlainName o.markerName
  stash : ∀ q, o.baseAt place <+: q → hidden q = false
  marker : o.canWrite = true → hidden (o.markerAt place) = false

theorem oblivious_executeCommand (h : Apart o place hidden base stash) (c : Command) :
    Oblivious (·.without hidden) (Run.Shows hidden base stash) (executeCommand P c) := by
  intro r hr
  obtain ⟨hsame, hafter⟩ := Command.oblivious_run h.sited h.stash P c r.machine hr
  rw [outcome_executeCommand, outcome_executeCommand]
  change (Except.ok (Command.resultOf (outcome (c.run P) (r.machine.without hidden)).1),
    { r with machine := (outcome (c.run P) (r.machine.without hidden)).2 }) = _ ∧ _
  rw [hsame]
  exact ⟨rfl, hafter⟩

theorem oblivious_saveMarker (h : Apart o place hidden base stash) (c : Command) :
    Oblivious (·.without hidden) (Run.Shows hidden base stash) (saveMarker o c) := by
  refine .ite (fun hsaves r hr => ?_) fun _ => .pure _
  obtain ⟨hsame, hafter⟩ := FileM.oblivious_mapError (f := TransferError.os)
    (FileM.oblivious_overwrite h.leads h.markerPlain h.plain.markerPath_parts (h.marker hsaves.2)
      (RetryMarker.ofCommand c).encode) r.machine.files hr.files
  change ((outcome ((RetryMarker.ofCommand c).save o.markerPath) (r.machine.files.without hidden)).1,
    { r with machine.files :=
      (outcome ((RetryMarker.ofCommand c).save o.markerPath) (r.machine.files.without hidden)).2 }) =
    _ ∧ _
  rw [RetryMarker.save, hsame]
  exact ⟨rfl, hr.stash, hafter⟩

theorem oblivious_report (c : Command) :
    Oblivious (·.without hidden) (Run.Shows hidden base stash) (report c) := by
  refine .modify (fun r => ?_) fun r hr => ?_
  · show (if r.machine.header.totalBlocks ≠ 0 ∧ c.verb.countsProgress = true then _ else _) = 
      Run.without (if r.machine.header.totalBlocks ≠ 0 ∧ c.verb.countsProgress = true then _ else _) hidden
    split_ifs <;> rfl
  · dsimp only
    split_ifs
    · exact hr
    · exact hr

/-- **Commands, and the saving of their markers.** -/
theorem oblivious_runCommand (h : Apart o place hidden base stash) (c : Command) :
    Oblivious (·.without hidden) (Run.Shows hidden base stash) (runCommand P o c) := by
  refine .bind (oblivious_executeCommand h c) fun result => ?_
  cases result with
  | success =>
    exact .bind (.modify (fun _ => rfl) fun _ hr => hr) fun _ =>
      .bind (oblivious_saveMarker h c) fun _ => oblivious_report c
  | needsRetry => exact .bind (.modify (fun _ => rfl) fun _ hr => hr) fun _ => .throw _
  | failed => exact .throw _

theorem oblivious_runLine (h : Apart o place hidden base stash) (index : Nat) (line : String) :
    Oblivious (·.without hidden) (Run.Shows hidden base stash) (runLine P o skip index line) := by
  rw [runLine]
  rcases Command.parse index line with e | _ | c
  · exact .throw _
  · exact .pure _
  · refine .ite (fun _ => .ite (fun _ => ?_) fun _ => oblivious_runCommand h c) fun _ => .pure _
    exact .modify (fun _ => rfl) fun _ hr => hr

/-- **The lines of a script take no notice** of what is neither in the stash nor the marker. -/
theorem oblivious_runLines (h : Apart o place hidden base stash) (index : Nat) (lines : List String) :
    Oblivious (·.without hidden) (Run.Shows hidden base stash) (runLines P o skip index lines) := by
  induction lines generalizing index with
  | nil => exact .pure _
  | cons line rest ih => exact .bind (oblivious_runLine h index line) fun _ => ih (index + 1)

/-! ## Opening among leftovers -/

theorem openStash_fresh (hretry : o.retry = false) (t : FileTree) :
    outcome (openStash o) t = outcome (Stash.open_ o.baseDir true) t := by
  cases hwrite : o.canWrite with
  | true => rw [openStash_eq o hwrite, hretry, baseDir_of_canWrite hwrite]; rfl
  | false =>
    rw [openStash, hwrite, hretry, baseDir_of_dry hwrite]
    show outcome (Stash.open_ o.scratchDir true >>= pure) t = _
    rw [bind_pure]


/-- Where something is not, there is nothing below it. -/
theorem not_below_of_get?_eq_none {t : FileTree} (hwell : t.WellFormed) {q : Place}
    (hnone : t.get? q = none) {node : Place × Node} (hnode : node ∈ t.nodes) : ¬ q <+: node.1 := by
  rintro ⟨more, hmore⟩
  have hsome := get?_ne_none_of_mem hnode
  rw [← hmore] at hsome
  induction more using List.reverseRecOn with
  | nil => exact hsome (by rw [List.append_nil]; exact hnone)
  | append_singleton more last _ =>
    rw [← List.append_assoc] at hsome
    rw [hwell.directory_of_append (hwell.parent hsome)] at hnone
    cases hnone

section Opening

variable {t : FileTree} {p : Path} {name : String}

/-- **Opening a stash that is to be wiped** makes its directory anew. -/
theorem open_wiped_eq (hwork : t.Leads p.below place) (hname : Usable name)
    (hfree : (∀ node ∈ t.nodes, ¬ (place ++ [name]) <+: node.1) ∨
      t.get? (place ++ [name]) = some .directory)
    (hkept : (t.eraseBelow (place ++ [name])).Leads p.below place) :
    outcome (Stash.open_ (p.join name) true) t = (.ok ⟨p.join name, true⟩,
      (t.eraseBelow (place ++ [name])).put (place ++ [name]) .directory) := by
  have hparts := Path.parts_join p hname.plain.noSlash
  have hlocate := hwork.locate_of_le hname.plain hparts hname.size
  have hmake := FileM.makeDirectories_child hkept hname.plain hname.size hparts (by
    rw [get?_eraseBelow t (by simp), if_pos (List.isPrefixOf_iff_prefix.mpr (List.prefix_refl _))])
  refine open_eq_ok.mpr ⟨t.eraseBelow (place ++ [name]), ?_, hmake, by rw [Bool.or_true]⟩
  rw [Bool.and_true]
  split_ifs with hthere
  · obtain ⟨q, hq, hdir⟩ := isDirectory_iff.mp hthere
    exact removeDirectory_eq_ok.mpr ⟨q, hq, hdir, by rw [Except.ok.inj (hlocate.symm.trans hq)]⟩
  · have hnone := hfree.resolve_right fun hdir => hthere (isDirectory_iff.mpr ⟨_, hlocate, hdir⟩)
    rw [eraseBelow, List.filter_eq_self.mpr fun node hnode => ?_]
    rw [Bool.not_eq_true', Bool.eq_false_iff]
    exact fun hbelow => hnone node hnode (List.isPrefixOf_iff_prefix.mp hbelow)

/-- A stash whose directory cannot have its name is not opened. -/
theorem open_refused (p : Path) (hslash : '/' ∉ name.toList) (hlong : 4 ≤ name.toList.length)
    (hname : ¬ Usable name) :
    ∃ e, ∀ t place, t.Leads p.below place → outcome (Stash.open_ (p.join name) true) t = (.error e, t) := by
  have hparts := Path.parts_join p hslash
  suffices ∃ e : OsError, ∀ t place, t.Leads p.below place →
      t.isDirectory (p.join name) = false ∧
        outcome (FileM.makeDirectories (p.join name)) t = (.error e, t) by
    obtain ⟨e, hrefused⟩ := this
    refine ⟨.os e, fun t place hwork => ?_⟩
    obtain ⟨hmissing, hmake⟩ := hrefused t place hwork
    rw [Stash.open_, outcome_fileMapError, outcome_get_bind, hmissing]
    have hrun := outcome_bind_of_error hmake
      fun _ => (pure ⟨p.join name, !false || true⟩ : FileM OsError Stash)
    exact congrArg (fun run => (run.1.mapError StashError.os, run.2)) hrun
  by_cases hnul : '\x00' ∈ name.toList
  · have hany : (p.join name).parts.any (·.contains '\x00') = true := by
      rw [hparts, List.any_append, Bool.or_eq_true]
      exact .inr (by simpa using hnul)
    refine ⟨.nulInName, fun t place _ => ⟨?_, ?_⟩⟩
    · rw [FileTree.isDirectory, FileTree.node, FileTree.locate, hany]
      rfl
    · rw [FileM.makeDirectories, hany]
      rfl
  · have hplain := plainName_of_length hlong hslash hnul
    have hsize : maxName < name.utf8ByteSize := Nat.lt_of_not_le fun hsize => hname ⟨hplain, hsize⟩
    refine ⟨.errno Errno.nameTooLong, fun t place hwork => ⟨?_, ?_⟩⟩
    · rw [FileTree.isDirectory, hwork.node hplain hparts, if_pos hsize]
    · have hclean : (p.join name).parts.any (·.contains '\x00') = false := by
        rw [hparts, List.any_append, hwork.clean]
        simp [hnul]
      have hlast : [name].filter (· ≠ "") = [name] :=
        List.filter_cons_of_pos (by simpa using hplain.ne_empty)
      rw [FileM.makeDirectories, hclean, hparts, List.filter_append, hlast]
      show outcome (FileM.makeDirectoriesFrom (p.below.filter (· ≠ "") ++ [name]) []) t = _
      rw [FileM.makeDirectoriesFrom_append
          ((FileM.follow_filter_iff (get?_nil t) hwork.directory).mpr hwork.follow) hwork.directory,
        FileM.makeDirectoriesFrom]
      refine outcome_bind_of_error ?_ _
      rw [outcome_fileLook, follow_name hplain hwork.directory, if_pos hsize]

end Opening

variable {t : FileTree} {w : World} {lines : List String} {inputs : ScriptInputs}

/-- The directories that are no leftovers are there with and without these. -/
theorem directory_eraseBelow {q : Place} (hq : (t.without (o.leftover place)).get? q = some .directory)
    {u : FileTree} (hu : u.get? q = some .directory) :
    (u.eraseBelow (o.baseAt place)).get? q = some .directory := by
  rw [get?_eraseBelow u (by simp [baseAt]), if_neg, hu]
  intro hbelow
  have hbelow := List.isPrefixOf_iff_prefix.mp hbelow
  have hne : q ≠ [] := by
    rintro rfl
    simp [baseAt] at hbelow
  rw [get?_without_of_hidden t hne (leftover_of_base hbelow)] at hq
  cases hq

section

variable (hplain : o.PlainPartition) (hretry : o.retry = false) (h : o.Littered place t)

include hplain hretry h

/-- **Opening the stash** leaves of the leftovers those that are not in it. -/
theorem openStash_without :
    let clean := t.without (o.leftover place)
    let opened := (clean.eraseBelow (o.baseAt place)).put (o.baseAt place) .directory
    (¬ Usable o.baseName ∧ ∃ e, outcome (openStash o) t = (.error e, t) ∧
      outcome (openStash o) clean = (.error e, clean)) ∨
    Usable o.baseName ∧ ∃ t', outcome (openStash o) t = (.ok ⟨o.baseDir, true⟩, t') ∧
      outcome (openStash o) clean = (.ok ⟨o.baseDir, true⟩, opened) ∧
      t'.without (o.unopened place) = opened ∧ t'.get? (o.markerAt place) = t.get? (o.markerAt place) := by
  intro clean opened
  have hopen : ∀ u, outcome (openStash o) u = outcome (Stash.open_ o.baseDir true) u :=
    openStash_fresh hretry
  have hclean : clean.Leads o.workDir.below place := leads_below_iff.mpr h.leads
  have hwork : t.Leads o.workDir.below place := leads_of_without hclean
  rw [hopen, hopen]
  by_cases hname : Usable o.baseName
  · refine .inr ⟨hname, (t.eraseBelow (o.baseAt place)).put (o.baseAt place) .directory,
      open_wiped_eq hwork hname ?_ ?_, open_wiped_eq hclean hname (.inl ?_) ?_, ?_, ?_⟩
    · exact h.base.imp (fun hnone _ => not_below_of_get?_eq_none h.wellFormed hnone) (·.1)
    · exact hclean.mono fun q hq => directory_eraseBelow hq (get?_of_without hq)
    · intro node hnode hbelow
      have hshown := (List.mem_filter.mp hnode).2
      rw [leftover_of_base hbelow] at hshown
      cases hshown
    · exact hclean.mono fun q hq => directory_eraseBelow hq hq
    · rw [without_put _ (unopened_of_base (List.prefix_refl _)), without_eraseBelow]
      show FileTree.put (eraseBelow _ (o.baseAt place)) _ _ = _
      simp only [opened, eraseBelow, without, clean, List.filter_filter]
      congr 2
      refine List.filter_congr fun node _ => ?_
      by_cases hbelow : o.baseAt place <+: node.1
      · simp [List.isPrefixOf_iff_prefix.mpr hbelow]
      · rw [unopened, decide_eq_false hbelow, Bool.not_false, Bool.and_true]
    · have hne : o.markerAt place ≠ o.baseAt place := (baseAt_ne_markerAt o place).symm
      rw [get?_put _ (by simp [baseAt]), if_neg hne, get?_eraseBelow _ (by simp [baseAt]), if_neg]
      intro hbelow
      exact hne ((List.isPrefixOf_iff_prefix.mp hbelow).eq_of_length (by simp [baseAt, markerAt])).symm
  · obtain ⟨e, hrefused⟩ := open_refused o.workDir hplain.baseName o.length_baseName hname
    exact .inl ⟨hname, e, hrefused t place hwork, hrefused clean place hclean⟩

end

/-! ### The marker -/

theorem unopened_marker (o : SessionOptions) (place : Place) :
    o.unopened place (o.markerAt place) = true := by
  have hnot : ¬ o.baseAt place <+: o.markerAt place := fun hbelow =>
    baseAt_ne_markerAt o place (hbelow.eq_of_length (by simp [baseAt, markerAt]))
  rw [unopened, decide_eq_false hnot, leftover, decide_eq_true (.inr (.inr rfl))]
  rfl

theorem foreign_of_unopened {q : Place} (h : o.unopened place q = false) :
    o.foreign place q = false := by rw [foreign, h, Bool.false_and]

/-- What is foreign to a session is all that is left, where there is no marker. -/
theorem without_foreign (h : o.canWrite = true → t.get? (o.markerAt place) = none) :
    t.without (o.foreign place) = t.without (o.unopened place) := by
  rw [without, without]
  congr 1
  refine List.filter_congr fun node hnode => ?_
  have hnot : ¬ (o.canWrite = true ∧ node.1 = o.markerAt place) := by
    rintro ⟨hwrite, hmarker⟩
    exact get?_ne_none_of_mem hnode (hmarker ▸ h hwrite)
  rw [foreign, decide_eq_false hnot, Bool.not_false, Bool.and_true]

theorem erase_without_foreign (hwrite : o.canWrite = true) (t : FileTree) :
    (t.erase (o.markerAt place)).without (o.foreign place) = t.without (o.unopened place) := by
  rw [without, without, erase, List.filter_filter]
  congr 1
  refine List.filter_congr fun node _ => ?_
  by_cases hmarker : node.1 = o.markerAt place
  · rw [foreign, hmarker, unopened_marker, decide_eq_true ⟨hwrite, rfl⟩]
    simp
  · rw [foreign, decide_eq_false fun h => hmarker h.2]
    simp [hmarker]

/-- **What a fresh session finds to skip** is nothing, and it leaves no marker. -/
theorem findSkip_without (hplain : o.PlainPartition) (hretry : o.retry = false)
    (hname : PlainName o.markerName) {opened : FileTree}
    (hopened : t.without (o.unopened place) = opened) (hwork : opened.Leads o.workDir.below place)
    (hmarker : t.get? (o.markerAt place) = none ∨
      (∃ data, t.get? (o.markerAt place) = some (.file data)) ∧ Usable o.markerName)
    (commands : List String) :
    outcome (findSkip o commands) opened = ((outcome (findSkip o commands) t).1, opened) ∧
      (outcome (findSkip o commands) t).2.without (o.foreign place) = opened := by
  have hnone : opened.get? (o.markerAt place) = none := by
    rw [← hopened]
    exact get?_without_of_hidden t (by simp [markerAt]) (unopened_marker o place)
  cases hwrite : o.canWrite with
  | false =>
    have hrun : ∀ u, outcome (findSkip o commands) u = (.ok RetrySkip.none, u) := by
      intro u
      rw [findSkip, hretry, hwrite]
      rfl
    rw [hrun, hrun]
    exact ⟨rfl, (without_foreign fun h => by rw [hwrite] at h; cases h).trans hopened⟩
  | true =>
    have hrun : ∀ u, outcome (findSkip o commands) u =
        ((outcome (FileM.removeIfPresent o.markerPath) u).1.mapError .os |>.map fun _ =>
          RetrySkip.none, (outcome (FileM.removeIfPresent o.markerPath) u).2) := by
      intro u
      rw [findSkip, hretry, hwrite]
      show outcome (RetryMarker.remove o.markerPath >>= fun _ => pure RetrySkip.none) u = _
      rw [outcome_bind, RetryMarker.remove, outcome_fileMapError]
      rcases outcome (FileM.removeIfPresent o.markerPath) u with ⟨_ | _, _⟩ <;> rfl
    have hwork' : t.Leads o.workDir.below place := leads_of_without (hopened ▸ hwork)
    rw [markerAt] at hnone hmarker
    have hremoved : opened.removed (place ++ [o.markerName]) = opened := by rw [removed, hnone]
    rw [hrun, hrun, FileM.removeIfPresent_eq hwork hname hplain.markerPath_parts,
      FileM.removeIfPresent_eq hwork' hname hplain.markerPath_parts, hnone, hremoved]
    by_cases hsize : maxName < o.markerName.utf8ByteSize
    · rw [if_pos hsize, if_pos hsize]
      have hnone' := hmarker.resolve_right fun h => absurd h.2.size (Nat.not_le.mpr hsize)
      exact ⟨rfl, (without_foreign fun _ => hnone').trans hopened⟩
    · rw [if_neg hsize, if_neg hsize, if_neg (by simp)]
      rcases hmarker with hnone' | ⟨⟨data, hfile⟩, -⟩
      · rw [hnone', if_neg (by simp), removed, hnone']
        exact ⟨rfl, (without_foreign fun _ => hnone').trans hopened⟩
      · rw [hfile, if_neg (by simp), removed, hfile]
        exact ⟨rfl, (erase_without_foreign hwrite t).trans hopened⟩

/-! ### Preparation -/

/-- The machine at the start of a fresh session. -/
def freshMachine (o : SessionOptions) (header : ScriptHeader) (stash : Stash) (inputs : ScriptInputs)
    (w : World) : Machine :=
  { device := w.device
    files := w.files
    stash
    header
    canWrite := o.canWrite
    allowFileErase := o.allowFileErase
    patchData := inputs.patchData
    newData := inputs.newData.map Feed.start }

/-- **What a fresh session does before its commands**, in a work directory that is there. -/
theorem prepare_fresh_eq (inputs : ScriptInputs) (hretry : o.retry = false) (hwork : w.files.Leads o.workDir.parts place)
    {header : ScriptHeader} {used : Nat} (hheader : ScriptHeader.parse lines = .ok (header, used)) :
    outcome (prepare o lines inputs) w =
      match outcome (openStash o) w.files with
      | (.error e, t) => (.error (.stash e), { w with files := t })
      | (.ok stash, t) =>
        match outcome (findSkip o (lines.drop used)) t with
        | (.error e, t') => (.error e, { w with files := t' })
        | (.ok skip, t') =>
          (.ok ⟨lines.drop used, skip, freshMachine o header stash inputs { w with files := t' }⟩,
            { w with files := t' }) := by
  have hmake : outcome (onFiles TransferError.os (FileM.makeDirectories o.workDir)) w = (.ok (), w) := by
    rw [outcome_sessionOnFiles, FileM.makeDirectories_of_leads hwork]
    rfl
  rw [prepare, outcome_bind_of_ok (lift_eq_ok.mpr ⟨hheader, rfl⟩)]
  show outcome (onFiles TransferError.os (FileM.makeDirectories o.workDir) >>= _) w = _
  rw [outcome_bind_of_ok hmake, outcome_bind, outcome_sessionOnFiles]
  rcases outcome (openStash o) w.files with ⟨e | stash, t⟩
  · rfl
  · show outcome (onFiles id (findSkip o (lines.drop used)) >>= _) { w with files := t } = _
    rw [outcome_bind, outcome_sessionOnFiles]
    dsimp only
    rcases outcome (findSkip o (lines.drop used)) t with ⟨e | skip, t'⟩
    · rfl
    · show outcome (get >>= _) { w with files := t' } = _
      rw [outcome_get_bind, outcome_bind, outcome_lift, startMachine, hretry,
        if_neg Bool.false_ne_true]
      rfl

/-- A marker has a longer name than a stash. -/
theorem usable_stashName (hplain : o.PlainPartition) (h : Usable o.markerName) : Usable o.stashName where
  plain := plainName_of_plainName hplain h.plain (by decide) (by decide) (by decide)
  size := by
    have hsize := h.size
    rw [markerName, String.utf8ByteSize_append] at hsize
    rw [stashName, String.utf8ByteSize_append]
    have hends : "_tmp".utf8ByteSize ≤ ".retry.json".utf8ByteSize := by decide
    omega

/-- Where a session cannot have a stash, none of the leftovers is its own. -/
theorem without_foreign_of_not_usable (hplain : o.PlainPartition) (h : o.Littered place t)
    (hname : ¬ Usable o.baseName) :
    t.without (o.foreign place) = t.without (o.leftover place) := by
  have hnone := h.base.resolve_right fun hdir => hname hdir.2
  rw [without_foreign fun hwrite => h.marker.resolve_right fun hmarker => hname ?_]
  · rw [without, without]
    congr 1
    refine List.filter_congr fun node hnode => ?_
    rw [unopened, decide_eq_false (not_below_of_get?_eq_none h.wellFormed hnone hnode),
      Bool.not_false, Bool.and_true]
  · rw [baseName, baseEnding, if_pos hwrite]
    exact usable_stashName hplain hmarker.2

/-- What a session has in hand, without the files at hidden places. -/
def Prepared.without (p : Prepared) (hidden : Place → Bool) : Prepared :=
  { p with machine := p.machine.without hidden }

/-- **A fresh session comes to its commands** among leftovers as it does without them, and of the
leftovers those are left that are foreign to it. -/
theorem prepare_without (inputs : ScriptInputs) (hplain : o.PlainPartition) (hretry : o.retry = false)
    (h : o.Littered place w.files) {header : ScriptHeader} {used : Nat}
    (hheader : ScriptHeader.parse lines = .ok (header, used)) :
    let clean := w.files.without (o.leftover place)
    (∃ e t, outcome (prepare o lines inputs) w = (.error e, { w with files := t }) ∧
      outcome (prepare o lines inputs) { w with files := clean } =
        (.error e, { w with files := t.without (o.foreign place) })) ∨
    ∃ p : Prepared, outcome (prepare o lines inputs) w = (.ok p, { w with files := p.machine.files }) ∧
      outcome (prepare o lines inputs) { w with files := clean } =
        (.ok (p.without (o.foreign place)),
          { w with files := p.machine.files.without (o.foreign place) }) ∧
      p.machine.files.without (o.foreign place) =
        (clean.eraseBelow (o.baseAt place)).put (o.baseAt place) .directory ∧
      Apart o place (o.foreign place) (p.machine.files.without (o.foreign place))
        p.machine.stash := by
  intro clean
  have hwork : w.files.Leads o.workDir.parts place := leads_of_without h.leads
  have hrun := prepare_fresh_eq inputs hretry hwork hheader
  have hrun' := prepare_fresh_eq inputs (w := { w with files := clean }) hretry h.leads hheader
  rcases openStash_without hplain hretry h with ⟨hname, e, hopen, hopen'⟩ |
    ⟨hname, t, hopen, hopen', hopened, hmarker⟩
  · rw [hopen] at hrun
    rw [hopen'] at hrun'
    refine .inl ⟨_, _, hrun, ?_⟩
    rw [without_foreign_of_not_usable hplain h hname]
    exact hrun'
  · rw [hopen] at hrun
    rw [hopen'] at hrun'
    have hmarkerPlain : PlainName o.markerName :=
      plainName_of_plainName hplain hname.plain (by decide) (by decide) (by decide)
    -- the work directory, and the stash in it
    have hshown : ∀ q, clean.get? q = some .directory →
        (t.without (o.unopened place)).get? q = some .directory := by
      intro q hq
      rw [hopened, get?_put _ (by simp [baseAt])]
      split_ifs
      · rfl
      · exact directory_eraseBelow hq hq
    have hleads := (leads_below_iff.mpr h.leads).mono hshown
    have hbase : (t.without (o.unopened place)).get? (o.baseAt place) = some .directory := by
      rw [hopened, get?_put _ (by simp [baseAt]), if_pos rfl]
    have hstash := hleads.child hname.plain hname.size hbase
    rw [← Path.parts_join o.workDir hname.plain.noSlash] at hstash
    obtain ⟨hskip, hleft⟩ := findSkip_without hplain hretry hmarkerPlain rfl hleads
      (hmarker ▸ h.marker) (lines.drop used)
    rw [← hopened] at hrun' ⊢
    dsimp only at hrun hrun'
    rw [hskip] at hrun'
    rcases hfound : outcome (findSkip o (lines.drop used)) t with ⟨e | skip, t'⟩ <;>
      rw [hfound] at hrun hrun' hleft
    · exact .inl ⟨e, t', hrun, by rw [hleft]; exact hrun'⟩
    · refine .inr ⟨_, hrun, ?_, hleft, ?_⟩
      · rw [hrun', Prepared.without]
        show _ = (Except.ok (Prepared.mk _ _ { freshMachine o header _ inputs _ with
          files := t'.without (o.foreign place) }), { w with files := t'.without (o.foreign place) })
        rw [hleft]
        rfl
      · show Apart o place (o.foreign place) (t'.without (o.foreign place)) ⟨o.baseDir, true⟩
        rw [hleft]
        exact ⟨hplain, hleads, sited_of_leads hname.plain rfl hstash, hmarkerPlain,
          fun q hq => foreign_of_unopened (unopened_of_base hq), fun hwrite => by
            rw [foreign, decide_eq_true ⟨hwrite, rfl⟩, Bool.not_true, Bool.and_false]⟩

/-! ### The end -/


/-- How the commands of a session end. -/
theorem outcome_runCommands (P : Primitives) (o : SessionOptions) (p : Prepared) (w : World) :
    outcome (runCommands P o p) w =
      let r := outcome (runLines P o p.skip 0 p.commands) { machine := p.machine, progress := w.progress }
      (r.1.map fun _ => ⟨r.2.executed, r.2.skipped, r.2.machine.written⟩,
        { device := r.2.machine.device, files := r.2.machine.files, progress := r.2.progress }) := by
  rw [runCommands, outcome_bind, outcome_onMachine]
  rcases outcome (runLines P o p.skip 0 p.commands) { machine := p.machine, progress := w.progress }
    with ⟨_ | _, _⟩ <;> rfl

section End

variable {p : Prepared} (h : Apart o place hidden base p.machine.stash)

include h

theorem runCommands_without (P : Primitives) (hshows : p.machine.Shows hidden base p.machine.stash) (w : World) :
    outcome (runCommands P o (p.without hidden)) (w.without hidden) =
        ((outcome (runCommands P o p) w).1, (outcome (runCommands P o p) w).2.without hidden) ∧
      FileTree.Shows hidden base (outcome (runCommands P o p) w).2.files := by
  have hlines : Oblivious (·.without hidden) (Run.Shows hidden base p.machine.stash)
      (runLines P o p.skip 0 p.commands) := oblivious_runLines h 0 p.commands
  obtain ⟨hsame, hafter⟩ := hlines { machine := p.machine, progress := w.progress } hshows
  have hrun : outcome (runLines P o (p.without hidden).skip 0 (p.without hidden).commands)
    { machine := (p.without hidden).machine, progress := (w.without hidden).progress } = _ := hsame
  rw [outcome_runCommands, outcome_runCommands, hrun]
  exact ⟨rfl, hafter.files⟩

/-- **What a session removes at its end.** -/
theorem cleanUp_without {clean : FileTree} (hclean : clean.Leads o.workDir.below place)
    (hless : ∀ q, clean.get? q = some .directory → base.get? q = some .directory ∧ ¬ o.baseAt place <+: q)
    {w : World} (hshows : FileTree.Shows hidden base w.files) :
    outcome (cleanUp o p.machine.stash) (w.without hidden) =
      ((outcome (cleanUp o p.machine.stash) w).1,
        (outcome (cleanUp o p.machine.stash) w).2.without hidden) := by
  have hsited : p.machine.stash.Sited (w.files.without hidden) (o.baseAt place) := h.sited.mono hshows
  have hfree := Stash.freeAll_eq (hsited.mono fun _ => get?_of_without)
  have hfree' := Stash.freeAll_eq hsited
  rw [← without_eraseBelow] at hfree'
  have hkept : FileTree.Shows hidden clean (w.files.eraseBelow (o.baseAt place)) := by
    intro q hq
    obtain ⟨hbase, hnot⟩ := hless q hq
    rw [without_eraseBelow, get?_eraseBelow _ (by simp [baseAt]),
      if_neg fun hbelow => hnot (List.isPrefixOf_iff_prefix.mp hbelow)]
    exact hshows q hbase
  have hrun : ∀ (w : World) (t : FileTree),
      outcome p.machine.stash.freeAll w.files = (.ok (), t) →
      outcome (cleanUp o p.machine.stash) w =
        if o.canWrite = true then
          ((outcome (FileM.removeIfPresent o.markerPath) t).1.mapError .os,
            { w with files := (outcome (FileM.removeIfPresent o.markerPath) t).2 })
        else (.ok (), { w with files := t }) := by
    intro w t ht
    rw [cleanUp, outcome_bind_of_ok (sessionOnFiles_eq_ok.mpr ⟨t, ht, rfl⟩)]
    split_ifs
    · rw [outcome_sessionOnFiles, RetryMarker.remove, outcome_fileMapError]
      simp only
      rcases (outcome (FileM.removeIfPresent o.markerPath) t).1 with _ | _ <;> rfl
    · rfl
  rw [hrun w _ hfree, hrun (w.without hidden) _ hfree']
  split_ifs with hwrite
  · rw [(FileM.oblivious_removeIfPresent hclean h.markerPlain h.plain.markerPath_parts
      (h.marker hwrite) _ hkept).1]
    rfl
  · rfl

end End

/-- **A fresh session ends among leftovers as it does without them**, if its script has a header: of
the leftovers those stay that are foreign to it. -/
theorem runScript_without (P : Primitives) (inputs : ScriptInputs) (hplain : o.PlainPartition)
    (hretry : o.retry = false)
    (h : o.Littered place w.files) {header : ScriptHeader} {used : Nat}
    (hheader : ScriptHeader.parse lines = .ok (header, used)) :
    outcome (runScript P o lines inputs) (w.without (o.leftover place)) =
      ((outcome (runScript P o lines inputs) w).1,
        (outcome (runScript P o lines inputs) w).2.without (o.foreign place)) := by
  have hstart : w.without (o.leftover place) =
    { w with files := w.files.without (o.leftover place) } := rfl
  rw [runScript, hstart]
  rcases prepare_without inputs hplain hretry h hheader with
    ⟨e, t, hrun, hrun'⟩ | ⟨p, hrun, hrun', hopened, hapart⟩
  · rw [outcome_bind_of_error hrun, outcome_bind_of_error hrun']
    rfl
  · rw [outcome_bind_of_ok hrun, outcome_bind_of_ok hrun']
    obtain ⟨hcommands, hshows⟩ := runCommands_without hapart P ⟨rfl, fun _ => id⟩
      { w with files := p.machine.files }
    change outcome (runCommands P o (p.without _) >>= _)
      (World.without { w with files := p.machine.files } (o.foreign place)) = _
    rw [outcome_bind, outcome_bind, hcommands]
    rcases hend : outcome (runCommands P o p) { w with files := p.machine.files } with ⟨e | summary, w'⟩
    · rfl
    · rw [hend] at hshows
      have hclean := cleanUp_without hapart (leads_below_iff.mpr h.leads) (fun q hq => ?_) hshows
      · change outcome (cleanUp o p.machine.stash >>= fun _ => pure summary)
          (w'.without (o.foreign place)) =
          ((outcome (cleanUp o p.machine.stash >>= fun _ => pure summary) w').1,
            (outcome (cleanUp o p.machine.stash >>= fun _ => pure summary) w').2.without
              (o.foreign place))
        rw [outcome_bind, outcome_bind, hclean]
        rcases outcome (cleanUp o p.machine.stash) w' with ⟨_ | _, _⟩ <;> rfl
      · have hkept := directory_eraseBelow hq hq
        rw [get?_eraseBelow _ (by simp [baseAt])] at hkept
        split_ifs at hkept with hbelow
        refine ⟨?_, fun h => hbelow (List.isPrefixOf_iff_prefix.mpr h)⟩
        rw [hopened, get?_put _ (by simp [baseAt])]
        split_ifs
        · rfl
        · rw [get?_eraseBelow _ (by simp [baseAt]), if_neg hbelow]
          exact hq

/-- A session whose script has no header touches nothing. -/
theorem runScript_of_header_error (P : Primitives) (w : World) {fault : ScriptFault}
    (hheader : ScriptHeader.parse lines = .error fault) :
    outcome (runScript P o lines inputs) w = (.error (.header fault), w) := by
  refine outcome_bind_of_error (outcome_bind_of_error ?_ _) _
  rw [outcome_lift, hheader]
  rfl

/-- **A fresh session ignores leftovers.** Two sessions that are not to resume, on one device and with
one script, whose files differ in what earlier sessions on the partition left behind at most, end
with the same result, device and progress. Outside the leftovers their files are the same at the end
too; and so are, of writing sessions, the stash and the marker, but where the script has no header:
then nothing was touched. -/
theorem runScript_ignores_leftovers (P : Primitives) (o : SessionOptions) (lines : List String)
    (inputs : ScriptInputs) (w w' : World) (place : Place) (hplain : o.PlainPartition)
    (hretry : o.retry = false) (hw : o.Littered place w.files) (hw' : o.Littered place w'.files)
    (hdevice : w'.device = w.device) (hprogress : w'.progress = w.progress)
    (hfiles : w'.files.without (o.leftover place) = w.files.without (o.leftover place)) :
    let run := outcome (runScript P o lines inputs) w
    let run' := outcome (runScript P o lines inputs) w'
    run'.1 = run.1 ∧ run'.2.device = run.2.device ∧ run'.2.progress = run.2.progress ∧
      (∀ q, o.leftover place q = false → run'.2.files.get? q = run.2.files.get? q) ∧
      (∀ header, ScriptHeader.parse lines = .ok header → o.canWrite = true →
        ∀ q, o.Resumable place q → run'.2.files.get? q = run.2.files.get? q) ∧
      ∀ fault, ScriptHeader.parse lines = .error fault → run.2 = w ∧ run'.2 = w' := by
  intro run run'
  have hclean : w'.without (o.leftover place) = w.without (o.leftover place) := by
    rw [World.without, World.without, hfiles, hdevice, hprogress]
  have hget : ∀ q, o.leftover place q = false → w'.files.get? q = w.files.get? q := by
    intro q hq
    rw [← get?_without w'.files hq, hfiles, get?_without w.files hq]
  rcases hheader : ScriptHeader.parse lines with fault | ⟨header, used⟩
  · have hrun : run = (.error (.header fault), w) := runScript_of_header_error P w hheader
    have hrun' : run' = (.error (.header fault), w') := runScript_of_header_error P w' hheader
    rw [hrun, hrun']
    exact ⟨rfl, hdevice, hprogress, hget, nofun, fun _ _ => ⟨rfl, rfl⟩⟩
  · have hrun := runScript_without P inputs hplain hretry hw hheader
    have hrun' := runScript_without P inputs hplain hretry hw' hheader
    rw [hclean, hrun] at hrun'
    obtain ⟨hresult, hworld⟩ := Prod.ext_iff.mp hrun'
    have hsame : ∀ q, o.foreign place q = false → run'.2.files.get? q = run.2.files.get? q := by
      intro q hq
      rw [← get?_without run'.2.files hq, ← get?_without run.2.files hq]
      exact congrArg (·.files.get? q) hworld.symm
    refine ⟨hresult.symm, (congrArg World.device hworld).symm, (congrArg World.progress hworld).symm,
      fun q hq => hsame q ?_, fun _ _ hwrite q hq => hsame q ?_, nofun⟩
    · rw [foreign, unopened, hq]
      rfl
    · rcases hq with rfl | hstash
      · rw [foreign, decide_eq_true ⟨hwrite, rfl⟩, Bool.not_true, Bool.and_false]
      · refine foreign_of_unopened (unopened_of_base ?_)
        rwa [baseAt, baseName, baseEnding, if_pos hwrite]

/-! ## Leftovers of three kinds -/

/-- A work directory with a stash, the stash of a dry run, and a marker that is none. -/
def litteredWorld : World :=
  { blockWorld [0] with
    files := ⟨[(["w"], .directory), (["w", "p_tmp"], .directory), (["w", "p_tmp", "aa"], .file ⟨#[1]⟩),
      (["w", "p_verify_tmp"], .directory), (["w", "p.retry.json"], .file ⟨#[2]⟩)]⟩ }

theorem wellFormed_litteredWorld : litteredWorld.files.WellFormed := by
  intro q hne hthere
  obtain ⟨node, hnode⟩ := Option.ne_none_iff_exists'.mp hthere
  have hmem := mem_of_get? hne hnode
  simp only [litteredWorld, List.mem_cons, Prod.mk.injEq, List.not_mem_nil, or_false] at hmem
  rcases hmem with ⟨rfl, -⟩ | ⟨rfl, -⟩ | ⟨rfl, -⟩ | ⟨rfl, -⟩ | ⟨rfl, -⟩ <;> rfl

theorem without_litteredWorld :
    litteredWorld.files.without (blockOptions.leftover ["w"]) =
      (blockWorld [0]).files.without (blockOptions.leftover ["w"]) := by
  rfl

theorem littered_litteredWorld : blockOptions.Littered ["w"] litteredWorld.files where
  wellFormed := wellFormed_litteredWorld
  leads := ⟨by cbv, rfl, rfl⟩
  stash := .inr ⟨rfl, ⟨by decide, by decide, by decide, by decide, by decide⟩, by decide⟩
  scratch := .inr ⟨rfl, ⟨by decide, by decide, by decide, by decide, by decide⟩, by decide⟩
  marker := .inr ⟨⟨_, rfl⟩, ⟨by decide, by decide, by decide, by decide, by decide⟩, by decide⟩

theorem littered_blockWorld : blockOptions.Littered ["w"] (blockWorld [0]).files where
  wellFormed := wellFormed_blockWorld [0]
  leads := ⟨by cbv, rfl, rfl⟩
  stash := .inl rfl
  scratch := .inl rfl
  marker := .inl rfl

/-- Among those leftovers, a script without commands ends as it does without them, and leaves
neither a stash nor a marker. -/
theorem runScript_ignores_leftovers_litteredWorld :
    let run := outcome (runScript .tabled blockOptions ["4", "0", "0", "0"] {}) litteredWorld
    let run' := outcome (runScript .tabled blockOptions ["4", "0", "0", "0"] {}) (blockWorld [0])
    run'.1 = run.1 ∧ ∀ q, blockOptions.Resumable ["w"] q →
      run'.2.files.get? q = run.2.files.get? q := by
  have hheader : ScriptHeader.parse ["4", "0", "0", "0"] = .ok (⟨4, 0, 0, 0⟩, 4) := by cbv
  obtain ⟨hresult, -, -, -, hresumable, -⟩ := runScript_ignores_leftovers .tabled blockOptions
    ["4", "0", "0", "0"] {} litteredWorld (blockWorld [0]) ["w"] plain_blockOptions rfl
    littered_litteredWorld littered_blockWorld rfl rfl without_litteredWorld.symm
  exact ⟨hresult, hresumable _ hheader rfl⟩

/-- Where the script has no header, the leftovers of a writing session stay: it has not come to its
stash. -/
theorem leftovers_stay_without_header :
    blockOptions.canWrite = true ∧ blockOptions.retry = false ∧
    litteredWorld.files.without (blockOptions.leftover ["w"]) =
      (blockWorld [0]).files.without (blockOptions.leftover ["w"]) ∧
    (outcome (runScript .tabled blockOptions ["x"] {}) litteredWorld).2.files.get?
        (blockOptions.stashAt ["w"] ++ ["aa"]) = some (.file ⟨#[1]⟩) ∧
    (outcome (runScript .tabled blockOptions ["x"] {}) (blockWorld [0])).2.files.get?
        (blockOptions.stashAt ["w"] ++ ["aa"]) = none := by
  have hheader : ∃ fault, ScriptHeader.parse ["x"] = .error fault := ⟨_, by cbv⟩
  obtain ⟨fault, hheader⟩ := hheader
  rw [runScript_of_header_error _ _ hheader, runScript_of_header_error _ _ hheader]
  exact ⟨rfl, rfl, without_litteredWorld, rfl, rfl⟩

end Session

end BlockUpdate
