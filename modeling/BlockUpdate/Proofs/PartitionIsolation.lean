import BlockUpdate.Proofs.ResumeEquivalence
import BlockUpdate.Proofs.VerificationPass

/-!
# What a session changes of other partitions

Partitions share a work directory, in which the names of their files tell them apart. A session
changes its own stash and its own marker there. The names of two partitions do not make their files
differ in all modes, though: where a name is that of another partition and `_verify`, its stash is
the directory in which dry runs of the other one keep theirs.

- `SessionOptions.Elsewhere`: what is in the work directory beside a session's stash and marker.
- `SessionOptions.SparesElsewhere`: worlds in which all of this is the same.
- **`Session.sparesElsewhere_runScript`**: every session spares it, however it ends.
- `SessionOptions.Verifies`: dry runs of a partition that work in the stash of another one.
- **`Session.runScript_spares_partition`**: what a session leaves of what another partition resumes
  from: all of it, but for those dry runs, which remove its stash.
-/

namespace BlockUpdate

open FileTree

namespace SessionOptions

variable {o : SessionOptions} {other : String} {t t' : FileTree} {place q : Place}

/-! ## Beside the files of a session -/

/-- The places in the work directory that are neither in the stash of a session nor its marker. -/
structure Elsewhere (o : SessionOptions) (place q : Place) : Prop where
  beyond : place.length < q.length
  notBase : ¬ o.baseAt place <+: q
  notMarker : q ≠ o.markerAt place

/-- Trees that differ in the files of a session at most. -/
def Owns (o : SessionOptions) (place : Place) (t t' : FileTree) : Prop :=
  ∀ q, o.Elsewhere place q → t'.get? q = t.get? q

instance : IsPreorder FileTree (o.Owns place) where
  refl _ _ _ := rfl
  trans _ _ _ h h' q hq := (h' q hq).trans (h q hq)

/-- The work directory has the same files but for those of the session, where it is. -/
def SparesElsewhere (o : SessionOptions) (w w' : World) : Prop :=
  ∀ (t : FileTree) (place : Place), t.Leads o.workDir.parts place → o.Owns place w.files w'.files

instance : IsPreorder World o.SparesElsewhere where
  refl _ _ _ _ _ _ := rfl
  trans _ _ _ h h' t place hplace := trans_of (o.Owns place) (h t place hplace) (h' t place hplace)

theorem owns_of_outside (h : Outside (o.baseAt place) t t') : o.Owns place t t' :=
  fun q hq => h q hq.notBase

/-- There is one work directory only. -/
theorem sparesElsewhere_of_owns {w w' : World} (hplace : t.Leads o.workDir.parts place)
    (h : o.Owns place w.files w'.files) : o.SparesElsewhere w w' := by
  intro t' place' hplace'
  obtain rfl := follow_unique hplace.follow hplace'.follow
  exact h

/-- The marker has one place, in whatever tree it has any. -/
theorem eq_markerAt_of_locate (hplain : o.PlainPartition) (hname : PlainName o.markerName)
    (hleads : t.Leads o.workDir.below place) (h : t'.locate o.markerPath = .ok q) :
    q = o.markerAt place := by
  rw [locate] at h
  split_ifs at h
  rw [hplain.markerPath_parts, follow_append, except_bind_eq_ok] at h
  obtain ⟨place', hwork, hmarker⟩ := h
  obtain rfl := follow_unique hleads.follow hwork
  rw [follow_name hname (get?_of_follow_cons hmarker)] at hmarker
  split_ifs at hmarker
  exact (Except.ok.inj hmarker).symm

/-- Removing the marker changes nothing else, however it ends. -/
theorem owns_removeMarker (hplain : o.PlainPartition) (hname : PlainName o.markerName)
    (hleads : t.Leads o.workDir.below place) (t' : FileTree) :
    Leaves (o.Owns place) (RetryMarker.remove o.markerPath) t' := by
  unfold Leaves
  rw [RetryMarker.remove, outcome_fileMapError]
  rcases hrun : outcome (FileM.removeIfPresent o.markerPath) t' with ⟨e | ⟨⟩, u⟩
  · obtain rfl := FileM.removeIfPresent_eq_error hrun
    exact refl_of (o.Owns place) u
  · rcases FileM.tolerateAbsence_eq_ok.mp hrun with hremove | habsent
    · rw [FileM.remove, outcome_change_eq_ok, except_bind_eq_ok] at hremove
      obtain ⟨found, hlocate, hremove⟩ := hremove
      obtain rfl := eq_markerAt_of_locate hplain hname hleads hlocate
      intro q hq
      rcases hfile : t'.get? (o.markerAt place) with _ | data | _ <;> rw [hfile] at hremove
      · cases hremove
      · obtain rfl := Except.ok.inj hremove
        exact (get?_erase t' (by simp [markerAt]) q).trans (if_neg hq.notMarker)
      · cases hremove
    · rw [FileM.remove, outcome_change] at habsent
      split at habsent
      · cases congrArg Prod.fst habsent
      · obtain rfl := congrArg Prod.snd habsent
        exact refl_of (o.Owns place) t'

end SessionOptions

namespace Session

open SessionOptions

variable {P : Primitives} {o : SessionOptions} {lines : List String} {inputs : ScriptInputs}
  {w w₁ w₂ : World} {t t' : FileTree} {place : Place} {p : Prepared}

/-! ## The parts of a session -/

theorem sparesElsewhere_onFiles (hplace : t.Leads o.workDir.parts place) {ε α : Type}
    {f : ε → TransferError} {x : FileM ε α} (h : Leaves (o.Owns place) x w.files) :
    Leaves o.SparesElsewhere (onFiles f x) w := by
  unfold Leaves
  rw [outcome_sessionOnFiles]
  exact sparesElsewhere_of_owns hplace h

/-- **Opening the stash**, in either mode. -/
theorem owns_openStash (hplain : o.PlainPartition) (hwork : t.Leads o.workDir.parts place) :
    Leaves (o.Owns place) (openStash o) t := by
  refine owns_of_outside ?_
  cases hwrite : o.canWrite with
  | true =>
    rw [openStash_eq o hwrite, ← baseDir_of_canWrite hwrite]
    exact Stash.outside_open (leads_below_iff.mpr hwork) hplain.baseName o.length_baseName _
  | false => exact outside_openStash hwrite hplain hwork

theorem owns_findSkip (hplain : o.PlainPartition) (hname : PlainName o.markerName)
    (hleads : t.Leads o.workDir.below place) (commands : List String) :
    Leaves (o.Owns place) (findSkip o commands) t := by
  cases hretry : o.retry with
  | true =>
    unfold Leaves
    rw [findSkip_resumed hretry]
    exact refl_of (o.Owns place) t
  | false =>
    rw [findSkip, hretry]
    cases o.canWrite with
    | true =>
      exact Leaves.bind (owns_removeMarker hplain hname hleads t)
        fun _ _ _ _ => Leaves.pure _
    | false => exact Leaves.pure _

/-- **All that comes before the commands.** -/
theorem sparesElsewhere_prepare (hplain : o.PlainPartition) (hwell : w.files.WellFormed)
    (hwork : (∃ place, w.files.Leads o.workDir.parts place) ∨ ".." ∉ o.workDir.parts) :
    Leaves o.SparesElsewhere (prepare o lines inputs) w := by
  refine Leaves.bind (refl_of o.SparesElsewhere w) fun header w₁ hlift _ => ?_
  obtain ⟨-, rfl⟩ := lift_eq_ok.mp hlift
  refine Leaves.bind ?_ fun _ w₂ hmake _ => ?_
  · unfold Leaves
    rw [outcome_sessionOnFiles]
    exact fun t place hplace q hq => FileM.makeDirectories_beyond hwork hplace hq.beyond
  obtain ⟨t₁, hmade, rfl⟩ := sessionOnFiles_eq_ok.mp hmake
  obtain ⟨-, hwell₁, place, hplace⟩ := FileM.makeDirectories_eq_ok hmade
  refine Leaves.bind (sparesElsewhere_onFiles hplace (owns_openStash hplain hplace))
    fun stash w₃ hopen _ => ?_
  obtain ⟨t₃, hopened, rfl⟩ := sessionOnFiles_eq_ok.mp hopen
  obtain ⟨-, place', hleads, -, hname, -⟩ :=
    openStash_opens hplain (hwell₁ hwell) ⟨place, hplace⟩ hopened
  obtain rfl := follow_unique hplace.follow (leads_below_iff.mp hleads).follow
  have hmarkerName : PlainName o.markerName :=
    plainName_of_plainName hplain hname (by decide) (by decide) (by decide)
  refine Leaves.bind (sparesElsewhere_onFiles hplace
    (owns_findSkip hplain hmarkerName hleads _)) fun skip w₄ _ _ => ?_
  exact Leaves.get_bind (Leaves.bind (refl_of o.SparesElsewhere w₄) fun _ _ _ _ => Leaves.pure _)

/-- **Commands, and the markers of those that succeed.** -/
theorem Visits.owns {m₀ m : Machine} (h : Visits P o m₀ m) (hm₀ : o.Lodged place m₀) :
    o.Owns place m₀.files m.files := by
  induction h with
  | start => exact refl_of (o.Owns place) m₀.files
  | ran h c ih =>
    exact trans_of (o.Owns place) ih (owns_of_outside
      (outside_of_touched (Command.run_touched P c (h.lodged hm₀).sited).files))
  | saved h _ c ih =>
    exact trans_of (o.Owns place) ih fun q hq => (h.lodged hm₀).saved_get? c hq.notMarker

section Commands

variable (hplain : o.PlainPartition) (hwell : w.files.WellFormed)
  (hprepare : outcome (prepare o lines inputs) w = (.ok p, w₁))

include hplain hwell hprepare

theorem sparesElsewhere_runCommands (P : Primitives) :
    Leaves o.SparesElsewhere (runCommands P o p) w₁ := by
  obtain ⟨place, hlodged, -, hfiles, -⟩ := prepare_opens hplain hwell hprepare
  obtain ⟨m, hvisits, -, hafter⟩ := visits_runCommands P o p w₁
  refine sparesElsewhere_of_owns (leads_below_iff.mp hlodged.leads) ?_
  rw [hafter, ← hfiles]
  exact hvisits.owns hlodged

/-- Where the stash of a session is when its commands are done. -/
theorem lodged_of_runCommands {summary : Summary}
    (hrun : outcome (runCommands P o p) w₁ = (.ok summary, w₂)) :
    ∃ place, w₂.files.Leads o.workDir.below place ∧
      p.machine.stash.Sited w₂.files (o.baseAt place) ∧ PlainName o.markerName := by
  obtain ⟨place, hlodged, -⟩ := prepare_opens hplain hwell hprepare
  obtain ⟨m, hvisits, -, hfiles⟩ := visits_runCommands P o p w₁
  have hend := hvisits.lodged hlodged
  rw [hrun] at hfiles
  refine ⟨place, hfiles ▸ hend.leads, ?_, hend.markerPlain⟩
  rw [hfiles]
  exact hend.sited.of_base (hlodged.base.trans hend.base.symm)

/-- **What a session removes at its end.** -/
theorem sparesElsewhere_cleanUp {summary : Summary}
    (hrun : outcome (runCommands P o p) w₁ = (.ok summary, w₂)) :
    Leaves o.SparesElsewhere (cleanUp o p.machine.stash) w₂ := by
  obtain ⟨place, hleads, hsited, hname⟩ := lodged_of_runCommands hplain hwell hprepare hrun
  have hplace := leads_below_iff.mp hleads
  refine Leaves.bind (sparesElsewhere_onFiles hplace
    (owns_of_outside (Stash.outside_freeAll hsited (by simp [baseAt])))) fun _ w₃ _ _ => ?_
  exact Leaves.ite (fun _ => sparesElsewhere_onFiles hplace
    (owns_removeMarker hplain hname hleads w₃.files)) fun _ => Leaves.pure _

end Commands

/-- **A session changes its own stash and marker only**, in the work directory, however it ends. -/
theorem sparesElsewhere_runScript (P : Primitives) (hplain : o.PlainPartition)
    (hwell : w.files.WellFormed)
    (hwork : (∃ place, w.files.Leads o.workDir.parts place) ∨ ".." ∉ o.workDir.parts) :
    Leaves o.SparesElsewhere (runScript P o lines inputs) w := by
  refine Leaves.bind (sparesElsewhere_prepare hplain hwell hwork) fun p w₁ hprepare _ => ?_
  refine Leaves.bind (sparesElsewhere_runCommands hplain hwell hprepare P) fun summary w₂ hrun _ => ?_
  exact Leaves.bind (sparesElsewhere_cleanUp hplain hwell hprepare hrun) fun _ _ _ _ => Leaves.pure _

/-- A dry run that succeeds leaves nothing where its stash was. -/
theorem dry_run_stash_gone (hdry : o.canWrite = false) (hplain : o.PlainPartition)
    (hwell : w.files.WellFormed) (hplace : t.Leads o.workDir.parts place) {summary : Summary}
    {w' : World} (hrun : outcome (runScript P o lines inputs) w = (.ok summary, w')) {q : Place}
    (hq : o.baseAt place <+: q) : w'.files.get? q = none := by
  rw [runScript, outcome_bind_eq_ok] at hrun
  obtain ⟨p, w₁, hprepare, hrest⟩ := hrun
  obtain ⟨summary', w₂, hcommands, hend⟩ := outcome_bind_eq_ok.mp hrest
  obtain ⟨⟨⟩, w₃, hclean, hdone⟩ := outcome_bind_eq_ok.mp hend
  obtain rfl : w₃ = w' := congrArg Prod.snd hdone
  obtain ⟨place', hleads, hsited, -⟩ := lodged_of_runCommands hplain hwell hprepare hcommands
  obtain rfl := follow_unique hplace.follow (leads_below_iff.mp hleads).follow
  obtain ⟨⟨⟩, w₄, hfree, hkept⟩ := outcome_bind_eq_ok.mp hclean
  rw [if_neg (by rw [hdry]; exact Bool.false_ne_true)] at hkept
  obtain rfl : w₄ = w₃ := congrArg Prod.snd hkept
  obtain ⟨t₄, hfreed, rfl⟩ := sessionOnFiles_eq_ok.mp hfree
  rw [Stash.freeAll_eq hsited] at hfreed
  obtain rfl := congrArg Prod.snd hfreed
  exact (get?_eraseBelow _ (by simp [baseAt]) q).trans
    (if_pos (List.isPrefixOf_iff_prefix.mpr hq))

end Session

namespace SessionOptions

variable {o : SessionOptions} {other : String} {place q : Place}

/-! ## Two partitions -/

/-- A dry run of a partition whose stash is that of another one. -/
def Verifies (o : SessionOptions) (other : String) : Prop :=
  o.canWrite = false ∧ other = o.partition ++ "_verify"

/-- A stash is not named like a marker, whatever partitions they are of. -/
theorem stashName_ne_markerName (name other : String) {ending : String}
    (hending : ending.toList.getLast? = some 'p') : name ++ ending ≠ other ++ ".retry.json" := by
  intro heq
  have hlast := congrArg (fun text => text.toList.getLast?) heq
  simp [List.getLast?_append, hending] at hlast

/-- **Stashes have one name** only in a dry run, where the one name continues the other. -/
theorem baseName_eq_iff (hne : other ≠ o.partition) :
    o.baseName = other ++ "_tmp" ↔ o.Verifies other := by
  have hscratch : o.partition ++ "_verify_tmp" = o.partition ++ "_verify" ++ "_tmp" := by
    rw [String.append_assoc]
    rfl
  rw [baseName, baseEnding, Verifies]
  cases o.canWrite with
  | true =>
    simp only [if_true, Bool.true_eq_false, false_and, iff_false]
    exact fun heq => hne ((String.append_left_inj _).mp heq).symm
  | false =>
    simp only [Bool.false_eq_true, if_false, true_and]
    rw [hscratch, String.append_left_inj]
    exact eq_comm

theorem baseName_ne_markerName (o : SessionOptions) (other : String) :
    o.baseName ≠ other ++ ".retry.json" := by
  rw [baseName, baseEnding]
  split_ifs
  · exact stashName_ne_markerName o.partition other (by decide)
  · exact stashName_ne_markerName o.partition other (by decide)

/-- Names in one directory are the same if what is below one is below the other. -/
theorem eq_of_common_way {name name' : String} (h : place ++ [name] <+: q)
    (h' : place ++ [name'] <+: q) : name = name' := by
  have hsame := List.prefix_of_prefix_length_le h h' (by simp)
  simpa using hsame.eq_of_length (by simp)

/-- What another partition resumes from is not a session's own, but in such a dry run. -/
theorem Resumable.elsewhere (h : { o with partition := other }.Resumable place q)
    (hne : other ≠ o.partition)
    (hnot : ¬ (o.Verifies other ∧ { o with partition := other }.stashAt place <+: q)) :
    o.Elsewhere place q := by
  refine ⟨h.beyond, fun hbase => ?_, ?_⟩
  · rcases h with rfl | hstash
    · exact o.baseName_ne_markerName other (eq_of_common_way hbase (List.prefix_refl _))
    · exact hnot ⟨(baseName_eq_iff hne).mp (eq_of_common_way hbase hstash), hstash⟩
  · rintro rfl
    rcases h with hmarker | hstash
    · have heq : o.partition ++ ".retry.json" = other ++ ".retry.json" := by
        simpa [markerAt, markerName] using hmarker
      exact hne ((String.append_left_inj _).mp heq).symm
    · exact stashName_ne_markerName other o.partition (by decide)
        (eq_of_common_way hstash (List.prefix_refl _))

end SessionOptions

namespace Session

open SessionOptions

/-- **What a session leaves of another partition.** Whatever its script, its options and its
outcome, the marker of the other partition is as it was, and so is its stash with all that is in
it, where the work directory is; but for a dry run whose partition's name with `_verify` is that of
the other: if it succeeds, nothing is left of the other's stash.

Where the path of the work directory goes up through a directory that is missing, that directory is
made too, and it may be that of a stash. -/
theorem runScript_spares_partition (P : Primitives) (o : SessionOptions) (other : String)
    (lines : List String) (inputs : ScriptInputs) (w : World) (hplain : o.PlainPartition)
    (hne : other ≠ o.partition) (hwell : w.files.WellFormed)
    (hwork : (∃ place, w.files.Leads o.workDir.parts place) ∨ ".." ∉ o.workDir.parts) :
    let result := outcome (runScript P o lines inputs) w
    let o' : SessionOptions := { o with partition := other }
    ∀ (t : FileTree) (place : Place), t.Leads o.workDir.parts place →
      result.2.files.get? (o'.markerAt place) = w.files.get? (o'.markerAt place) ∧
      (¬ o.Verifies other → ∀ q, o'.stashAt place <+: q →
        result.2.files.get? q = w.files.get? q) ∧
      (o.Verifies other → (∃ summary, result.1 = .ok summary) → ∀ q, o'.stashAt place <+: q →
        result.2.files.get? q = none) := by
  intro result o' t place hplace
  have hspares : Leaves o.SparesElsewhere (runScript P o lines inputs) w :=
    sparesElsewhere_runScript P hplain hwell hwork
  have hspared := hspares t place hplace
  refine ⟨hspared _ (Resumable.elsewhere (.inl rfl) hne fun hnot => ?_), fun hnot q hq => ?_,
    fun hverifies hok q hq => ?_⟩
  · exact stashName_ne_markerName other other (by decide)
      (eq_of_common_way hnot.2 (List.prefix_refl _))
  · exact hspared q (Resumable.elsewhere (.inr hq) hne fun h => hnot h.1)
  · obtain ⟨summary, hsummary⟩ := hok
    have hbase : o.baseAt place = o'.stashAt place := by
      rw [baseAt, stashAt, (baseName_eq_iff hne).mpr hverifies, stashName]
    exact dry_run_stash_gone hverifies.1 hplain hwell hplace
      (Prod.ext_iff.mpr ⟨hsummary, rfl⟩) (hbase ▸ hq)

/-! ## A stash that is lost -/

open Bytes (uniform)

/-- A dry run of the partition `p`. -/
def checkingOptions : SessionOptions := { blockOptions with canWrite := false }

/-- A work directory in which the partition `p_verify` has stashed a block and saved a marker. -/
def verifyWorld : World where
  device := Device.file (uniform [0])
  files := ⟨[(["w"], .directory), (["w", "p_verify_tmp"], .directory),
    (["w", "p_verify_tmp", Digest.name [7]], .file (uniform [7])),
    (["w", "p_verify.retry.json"], .file (uniform [1]))]⟩
  progress := {}

theorem wellFormed_verifyWorld : verifyWorld.files.WellFormed := by
  intro q hne hthere
  obtain ⟨node, hnode⟩ := Option.ne_none_iff_exists'.mp hthere
  have hmem := mem_of_get? hne hnode
  simp only [verifyWorld, List.mem_cons, Prod.mk.injEq, List.not_mem_nil, or_false] at hmem
  rcases hmem with ⟨rfl, -⟩ | ⟨rfl, -⟩ | ⟨rfl, -⟩ | ⟨rfl, -⟩ <;> rfl

/-- A script without commands succeeds there. -/
theorem runScript_verifyWorld :
    ∃ w', outcome (runScript .tabled checkingOptions ["4", "0", "0", "0"] {}) verifyWorld =
      (.ok ⟨0, 0, 0⟩, w') := by
  have hplain : checkingOptions.PlainPartition := plain_blockOptions
  have hleads : verifyWorld.files.Leads checkingOptions.workDir.below ["w"] := ⟨by cbv, rfl, rfl⟩
  have hname : PlainName checkingOptions.baseName :=
    ⟨by decide, by decide, by decide, by decide, by decide⟩
  have hsize : checkingOptions.baseName.utf8ByteSize ≤ maxName := by decide
  have hparts : checkingOptions.scratchDir.parts =
      checkingOptions.workDir.below ++ [checkingOptions.baseName] := rfl
  -- the directory of the other partition is wiped
  let t₁ := verifyWorld.files.eraseBelow ["w", "p_verify_tmp"]
  let t₂ := t₁.put ["w", "p_verify_tmp"] .directory
  have hlocate := hleads.locate_of_le hname hparts hsize
  have hthere : verifyWorld.files.isDirectory checkingOptions.scratchDir = true :=
    isDirectory_iff.mpr ⟨_, hlocate, rfl⟩
  have hleads₁ : t₁.Leads checkingOptions.workDir.below ["w"] := ⟨by cbv, rfl, rfl⟩
  have hopen : outcome (Stash.open_ checkingOptions.scratchDir true) verifyWorld.files =
      (.ok ⟨checkingOptions.scratchDir, true⟩, t₂) := by
    refine open_eq_ok.mpr ⟨t₁, ?_, FileM.makeDirectories_child hleads₁ hname hsize hparts rfl, ?_⟩
    · rw [hthere]
      exact removeDirectory_eq_ok.mpr ⟨_, hlocate, rfl, rfl⟩
    · rw [hthere]
      rfl
  let m : Machine :=
    { device := verifyWorld.device
      files := t₂
      stash := ⟨checkingOptions.scratchDir, true⟩
      header := ⟨4, 0, 0, 0⟩
      canWrite := false }
  have hheader : ScriptHeader.parse ["4", "0", "0", "0"] = .ok (⟨4, 0, 0, 0⟩, 4) := by cbv
  have hprepare : outcome (prepare checkingOptions ["4", "0", "0", "0"] {}) verifyWorld =
      (.ok ⟨[], RetrySkip.none, m⟩, { verifyWorld with files := t₂ }) :=
    prepare_eq_ok.mpr ⟨_, _, _, _, t₂, _, t₂, m, hheader,
      FileM.makeDirectories_of_leads (leads_below_iff.mp hleads),
      (openStash_dry_eq_ok rfl).mpr ⟨t₂, hopen, rfl⟩, rfl, rfl, rfl, rfl⟩
  -- and removed at the end
  have hstash : t₂.Leads checkingOptions.scratchDir.parts ["w", "p_verify_tmp"] := by
    rw [hparts]
    exact (⟨by cbv, rfl, rfl⟩ : t₂.Leads checkingOptions.workDir.below ["w"]).child hname hsize rfl
  have hfree : outcome m.stash.freeAll t₂ = (.ok (), t₂.eraseBelow ["w", "p_verify_tmp"]) :=
    fileMapError_eq_ok.mpr (FileM.tolerateAbsence_eq_ok.mpr (.inl (removeDirectory_eq_ok.mpr
      ⟨_, hstash.locate_self rfl, rfl, rfl⟩)))
  have hclean : outcome (cleanUp checkingOptions m.stash) { verifyWorld with files := t₂ } =
      (.ok (), { verifyWorld with files := t₂.eraseBelow ["w", "p_verify_tmp"] }) := by
    rw [cleanUp, outcome_bind_of_ok (sessionOnFiles_eq_ok.mpr ⟨_, hfree, rfl⟩)]
    rfl
  exact ⟨_, runScript_eq_ok.mpr ⟨_, _, _, hprepare, rfl, hclean, rfl⟩⟩

/-- A dry run of one partition that leaves nothing of the stash of another: the block that was
stashed there before is gone, though the marker is still there. -/
theorem runScript_spares_partition_verify :
    verifyWorld.files.get? ["w", "p_verify_tmp", Digest.name [7]] = some (.file (uniform [7])) ∧
    let w' := (outcome (runScript .tabled checkingOptions ["4", "0", "0", "0"] {}) verifyWorld).2
    w'.files.get? ["w", "p_verify_tmp", Digest.name [7]] = none ∧
      w'.files.get? ["w", "p_verify.retry.json"] = some (.file (uniform [1])) := by
  have hleads : verifyWorld.files.Leads checkingOptions.workDir.parts ["w"] := ⟨by cbv, rfl, rfl⟩
  obtain ⟨w', hrun⟩ := runScript_verifyWorld
  obtain ⟨hmarker, -, hgone⟩ := runScript_spares_partition .tabled checkingOptions "p_verify"
    ["4", "0", "0", "0"] {} verifyWorld plain_blockOptions (by decide) wellFormed_verifyWorld
    (.inl ⟨_, hleads⟩) verifyWorld.files ["w"] hleads
  exact ⟨rfl, hgone ⟨rfl, rfl⟩ ⟨_, congrArg Prod.fst hrun⟩ _ ⟨[Digest.name [7]], rfl⟩,
    hmarker.trans rfl⟩

end Session

end BlockUpdate
