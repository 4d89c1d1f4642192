import BlockUpdate.Proofs.MarkerFile
import BlockUpdate.Proofs.StashFiles
import Mathlib.Tactic.SplitIfs

/-!
# The work directory of a session

A writing session keeps its stash and its marker side by side in the work directory. The two are
told apart by their names alone, so the partition has to be named by a single part of a path.

- `SessionOptions.Workspace`: the stash directory is there, and the marker's place is free for it.
- **`prepare_fresh`**: a fresh session that gets to its commands begins with an empty stash and
  without a marker.
- **`prepare_resumed`**: a session that resumes in such a directory takes it as it is.
- **`cleanUp_workspace`**: at the end both are gone.
-/

namespace BlockUpdate

open FileTree

namespace SessionOptions

/-- The name of the stash directory. -/
def stashName (o : SessionOptions) : String := o.partition ++ "_tmp"

/-- The name of the marker file. -/
def markerName (o : SessionOptions) : String := o.partition ++ ".retry.json"

/-- The stash directory in the directory at a place. -/
def stashAt (o : SessionOptions) (place : Place) : Place := place ++ [o.stashName]

/-- The marker file in the directory at a place. -/
def markerAt (o : SessionOptions) (place : Place) : Place := place ++ [o.markerName]

/-- The partition is named by a single part of a path. -/
def PlainPartition (o : SessionOptions) : Prop := '/' ∉ o.partition.toList

/-- The stash directory is there, and no directory is in the way of the marker. -/
structure Workspace (o : SessionOptions) (t : FileTree) (place : Place) : Prop where
  leads : t.Leads o.workDir.below place
  stash : t.Leads o.stashDir.parts (o.stashAt place)
  stashPlain : PlainName o.stashName
  markerPlain : PlainName o.markerName
  markerSize : o.markerName.utf8ByteSize ≤ maxName
  marker : t.get? (o.markerAt place) ≠ some .directory

variable {o : SessionOptions} {t t' : FileTree} {place : Place}

theorem PlainPartition.noSlash (h : o.PlainPartition) {ending : String}
    (hending : '/' ∉ ending.toList) : '/' ∉ (o.partition ++ ending).toList := by
  rw [String.toList_append, List.mem_append]
  exact fun hmem => hmem.elim h hending

theorem PlainPartition.stashDir_parts (h : o.PlainPartition) :
    o.stashDir.parts = o.workDir.below ++ [o.stashName] :=
  Path.parts_join _ (h.noSlash (by decide))

theorem PlainPartition.markerPath_parts (h : o.PlainPartition) :
    o.markerPath.parts = o.workDir.below ++ [o.markerName] :=
  Path.parts_join _ (h.noSlash (by decide))

/-- A name with an ending of four characters or more is plain. -/
theorem PlainPartition.plainName (h : o.PlainPartition) {ending : String}
    (hslash : '/' ∉ ending.toList) (hnul : '\x00' ∉ ending.toList)
    (hlength : 4 ≤ ending.toList.length) (hclean : '\x00' ∉ o.partition.toList) :
    PlainName (o.partition ++ ending) := by
  refine plainName_of_length ?_ (h.noSlash hslash) ?_
  · rw [String.toList_append, List.length_append]
    omega
  · rw [String.toList_append, List.mem_append]
    exact fun hmem => hmem.elim hclean hnul

namespace Workspace

/-- The work directory stays one when directories do. -/
theorem congr (h : o.Workspace t place)
    (hsame : ∀ p, t'.get? p = some .directory ↔ t.get? p = some .directory) :
    o.Workspace t' place :=
  ⟨h.leads.mono fun p => (hsame p).mpr, h.stash.mono fun p => (hsame p).mpr, h.stashPlain,
    h.markerPlain, h.markerSize, fun hdir => h.marker ((hsame _).mp hdir)⟩

theorem sited (h : o.Workspace t place) (hplain : o.PlainPartition) {s : Stash}
    (hs : s.base = o.stashDir) : s.Sited t (o.stashAt place) := by
  have hparts := hplain.stashDir_parts
  refine ⟨hs ▸ h.stash, ?_, ?_⟩
  · rw [hs, Path.isEmpty, hparts]
    simp [h.stashPlain.ne_empty]
  · rw [hs]
    exact Path.below_of_parts hparts h.stashPlain.ne_empty

end Workspace

/-- The marker is not in the stash. -/
theorem stashAt_append_ne_markerAt (o : SessionOptions) (place : Place) (name : String) :
    o.stashAt place ++ [name] ≠ o.markerAt place := by
  intro heq
  have := congrArg List.length heq
  simp [stashAt, markerAt] at this

end SessionOptions

namespace Session

open SessionOptions

variable {o : SessionOptions} {t t' : FileTree} {place : Place}

/-! ## The stash -/

/-- What a fresh session finds in its stash directory: no file. -/
def NoEntries (o : SessionOptions) (t : FileTree) (place : Place) : Prop :=
  ∀ node ∈ t.nodes, ∀ name, node.1 = o.stashAt place ++ [name] → node.2 = .directory

theorem openStash_eq (o : SessionOptions) (hwrite : o.canWrite = true) :
    openStash o = Stash.open_ o.stashDir (!o.retry) := by
  rw [openStash, hwrite]
  rfl

/-- Opening a stash makes its directory, after removing what was there if it is to be wiped. -/
theorem open_eq_ok {base : Path} {wipe : Bool} {s : Stash} :
    outcome (Stash.open_ base wipe) t = (.ok s, t') ↔
      ∃ t₁, (if (t.isDirectory base && wipe) = true then
          outcome (FileM.removeDirectory base) t = (.ok (), t₁) else t₁ = t) ∧
        outcome (FileM.makeDirectories base) t₁ = (.ok (), t') ∧
        s = ⟨base, !t.isDirectory base || wipe⟩ := by
  have hmake : ∀ t₁, outcome (FileM.makeDirectories base >>= fun _ =>
      (pure ⟨base, !t.isDirectory base || wipe⟩ : FileM OsError Stash)) t₁ = (.ok s, t') ↔
        outcome (FileM.makeDirectories base) t₁ = (.ok (), t') ∧
          s = ⟨base, !t.isDirectory base || wipe⟩ := by
    intro t₁
    rw [outcome_bind_eq_ok]
    simp only [outcome_pure, Prod.mk.injEq, Except.ok.injEq]
    exact ⟨fun ⟨_, _, h, hs, ht⟩ => ⟨ht ▸ h, hs.symm⟩, fun ⟨h, hs⟩ => ⟨(), t', h, hs.symm, rfl⟩⟩
  rw [Stash.open_, fileMapError_eq_ok, outcome_get_bind]
  show outcome (if (t.isDirectory base && wipe) = true then
    FileM.removeDirectory base >>= fun _ => _ else _) t = _ ↔ _
  split_ifs
  · rw [outcome_bind_eq_ok]
    exact ⟨fun ⟨_, t₁, hremove, h⟩ => ⟨t₁, hremove, (hmake t₁).mp h⟩,
      fun ⟨t₁, hremove, h⟩ => ⟨(), t₁, hremove, (hmake t₁).mpr h⟩⟩
  · exact ⟨fun h => ⟨t, rfl, (hmake t).mp h⟩, fun ⟨t₁, ht, h⟩ => (hmake t).mpr (ht ▸ h)⟩

/-- Removing a directory that is there removes all below it. -/
theorem removeDirectory_eq_ok {p : Path} :
    outcome (FileM.removeDirectory p) t = (.ok (), t') ↔
      ∃ place, t.locate p = .ok place ∧ t.get? place = some .directory ∧
        t' = t.eraseBelow place := by
  rw [FileM.removeDirectory, outcome_change_eq_ok, except_bind_eq_ok]
  refine exists_congr fun place => and_congr_right fun _ => ?_
  rcases t.get? place with _ | _ | _ <;> simp [pure, Except.pure, throw, throwThe,
    MonadExceptOf.throw, eq_comm]

theorem isDirectory_iff {p : Path} :
    t.isDirectory p = true ↔ ∃ place, t.locate p = .ok place ∧ t.get? place = some .directory := by
  rw [FileTree.isDirectory, FileTree.node]
  rcases t.locate p with e | place
  · simp [bind, Except.bind]
  · rcases hfound : t.get? place with _ | _ | _ <;> simp [hfound, bind, Except.bind, pure,
      Except.pure, throw, throwThe, MonadExceptOf.throw]

/-- What leads to a long name below a path leads to the path. -/
theorem leads_of_join {p : Path} {name : String} (hslash : '/' ∉ name.toList)
    (hlong : 4 ≤ name.toList.length) {q : Place} (h : t.Leads (p.join name).parts q) :
    ∃ place, q = place ++ [name] ∧ t.Leads p.below place ∧ PlainName name ∧
      name.utf8ByteSize ≤ maxName := by
  rw [Path.parts_join p hslash] at h
  have hclean := h.clean
  rw [List.any_append, Bool.or_eq_false_iff] at hclean
  have hplain : PlainName name := plainName_of_length hlong hslash (by simpa using hclean.2)
  obtain ⟨place, hq, hleads, hsize⟩ := h.parent hplain
  exact ⟨place, hq, hleads, hplain, hsize⟩

/-- A name that begins with the partition is plain if another one is. -/
theorem plainName_of_plainName (hplain : o.PlainPartition) {ending ending' : String}
    (hname : PlainName (o.partition ++ ending)) (hslash : '/' ∉ ending'.toList)
    (hnul : '\x00' ∉ ending'.toList) (hlength : 4 ≤ ending'.toList.length) :
    PlainName (o.partition ++ ending') := by
  refine hplain.plainName hslash hnul hlength fun hmem => hname.noNul ?_
  rw [String.toList_append, List.mem_append]
  exact .inl hmem

/-- A stash that is to be wiped is made where nothing is left below its directory. -/
theorem open_wiped_below (hwell : t.WellFormed) {p : Path} (hp : ∃ place, t.Leads p.parts place)
    {name : String} (hslash : '/' ∉ name.toList) (hlong : 4 ≤ name.toList.length) {s : Stash}
    (h : outcome (Stash.open_ (p.join name) true) t = (.ok s, t')) :
    s = ⟨p.join name, true⟩ ∧ ∃ t₁ place, t'.Leads p.below place ∧
      t'.Leads (p.join name).parts (place ++ [name]) ∧ PlainName name ∧
      outcome (FileM.makeDirectories (p.join name)) t₁ = (.ok (), t') ∧
      ∀ node ∈ t₁.nodes, ∀ entry, node.1 ≠ place ++ [name] ++ [entry] := by
  obtain ⟨t₁, hwipe, hmake, rfl⟩ := open_eq_ok.mp h
  obtain ⟨-, -, stashPlace, hstash⟩ := FileM.makeDirectories_eq_ok hmake
  obtain ⟨place, rfl, hleads, hname, hsize⟩ := leads_of_join hslash hlong hstash
  refine ⟨by rw [Bool.or_true], t₁, place, hleads, hstash, hname, hmake,
    fun node hold entry hentry => ?_⟩
  split_ifs at hwipe with hexisted
  · -- everything below the directory was removed
    obtain ⟨q, hlocate, hdir, rfl⟩ := removeDirectory_eq_ok.mp hwipe
    have hq := follow_unique (leads_of_locate hlocate hdir).follow hstash.follow
    have hkept := (List.mem_filter.mp hold).2
    have hbelow : (place ++ [name]).isPrefixOf (place ++ [name] ++ [entry]) = true :=
      List.isPrefixOf_iff_prefix.mpr (List.prefix_append ..)
    rw [hentry, hq, hbelow] at hkept
    cases hkept
  · -- nothing can have been below a directory that was not there
    subst hwipe
    obtain ⟨workPlace, hworkLeads⟩ := hp
    have hwork := leads_below_iff.mpr hworkLeads
    obtain rfl : workPlace = place := follow_unique hwork.follow hleads.follow
    have hparent := hwell.parent (hentry ▸ get?_ne_none_of_mem hold)
    refine hexisted (Bool.and_eq_true_iff.mpr ⟨isDirectory_iff.mpr ⟨_, ?_, hparent⟩, rfl⟩)
    exact hwork.locate_of_le hname (Path.parts_join p hslash) hsize

/-- **Opening a stash that is to be wiped** leaves its directory there without entries. -/
theorem open_wiped (hwell : t.WellFormed) {p : Path} (hp : ∃ place, t.Leads p.parts place)
    {name : String} (hslash : '/' ∉ name.toList) (hlong : 4 ≤ name.toList.length) {s : Stash}
    (h : outcome (Stash.open_ (p.join name) true) t = (.ok s, t')) :
    s = ⟨p.join name, true⟩ ∧ ∃ place, t'.Leads p.below place ∧
      t'.Leads (p.join name).parts (place ++ [name]) ∧ PlainName name ∧
      ∀ node ∈ t'.nodes, ∀ entry, node.1 = place ++ [name] ++ [entry] → node.2 = .directory := by
  obtain ⟨hs, t₁, place, hleads, hstash, hname, hmake, hnone⟩ :=
    open_wiped_below hwell hp hslash hlong h
  obtain ⟨hgrown, -⟩ := FileM.makeDirectories_eq_ok hmake
  exact ⟨hs, place, hleads, hstash, hname, fun node hnode entry hentry =>
    (hgrown.nodes node hnode).resolve_left fun hold => hnone node hold entry hentry⟩

/-! ## The marker -/

/-- Removing the marker is all that a fresh session does to find that it skips nothing. -/
theorem findSkip_fresh (hretry : o.retry = false) (hwrite : o.canWrite = true)
    {commands : List String} {skip : RetrySkip} :
    outcome (findSkip o commands) t = (.ok skip, t') ↔
      outcome (FileM.removeIfPresent o.markerPath) t = (.ok (), t') ∧ skip = RetrySkip.none := by
  rw [findSkip, hretry, hwrite]
  show outcome (RetryMarker.remove o.markerPath >>= fun _ => pure RetrySkip.none) t = _ ↔ _
  rw [outcome_bind_eq_ok, RetryMarker.remove]
  simp only [fileMapError_eq_ok, outcome_pure, Prod.mk.injEq, Except.ok.injEq]
  exact ⟨fun ⟨_, _, h, hs, ht⟩ => ⟨ht ▸ h, hs.symm⟩, fun ⟨h, hs⟩ => ⟨(), t', h, hs.symm, rfl⟩⟩

/-- A resumed session reads the marker. -/
theorem findSkip_resumed (hretry : o.retry = true) (commands : List String) (t : FileTree) :
    outcome (findSkip o commands) t =
      ((RetryMarker.load t o.markerPath).map (RetrySkip.resolve · commands), t) := by
  rw [findSkip, hretry]
  show outcome (FileM.look (RetryMarker.load · o.markerPath) >>= fun found =>
    pure (RetrySkip.resolve found commands)) t = _
  rw [outcome_bind, outcome_fileLook]
  rcases RetryMarker.load t o.markerPath with _ | _ <;> rfl

/-! ## Preparation -/

/-- The machine at the start of a session, before anything in its stash is counted. -/
def blankMachine (o : SessionOptions) (header : ScriptHeader) (created : Bool)
    (inputs : ScriptInputs) (w : World) : Machine :=
  { device := w.device
    files := w.files
    stash := ⟨o.stashDir, created⟩
    header
    canWrite := true
    allowFileErase := o.allowFileErase
    patchData := inputs.patchData
    newData := inputs.newData.map Feed.start }

/-- **What a session does before it comes to its commands.** -/
theorem prepare_eq_ok {lines : List String} {inputs : ScriptInputs} {w w' : World} {p : Prepared} :
    outcome (prepare o lines inputs) w = (.ok p, w') ↔
      ∃ header used t₁ stash t₂ skip t₃ machine,
        ScriptHeader.parse lines = .ok (header, used) ∧
        outcome (FileM.makeDirectories o.workDir) w.files = (.ok (), t₁) ∧
        outcome (openStash o) t₁ = (.ok stash, t₂) ∧
        outcome (findSkip o (lines.drop used)) t₂ = (.ok skip, t₃) ∧
        startMachine o header stash inputs { w with files := t₃ } = .ok machine ∧
        p = ⟨lines.drop used, skip, machine⟩ ∧ w' = { w with files := t₃ } := by
  rw [prepare, outcome_bind_eq_ok]
  constructor
  · rintro ⟨⟨header, used⟩, w₁, hlift, h⟩
    obtain ⟨hheader, rfl⟩ := lift_eq_ok.mp hlift
    obtain ⟨_, w₂, h₂, h⟩ := outcome_bind_eq_ok.mp h
    obtain ⟨t₂, hmake, rfl⟩ := sessionOnFiles_eq_ok.mp h₂
    obtain ⟨stash, w₃, h₃, h⟩ := outcome_bind_eq_ok.mp h
    obtain ⟨t₃, hopen, rfl⟩ := sessionOnFiles_eq_ok.mp h₃
    obtain ⟨skip, w₄, h₄, h⟩ := outcome_bind_eq_ok.mp h
    obtain ⟨t₄, hskip, rfl⟩ := sessionOnFiles_eq_ok.mp h₄
    rw [outcome_get_bind] at h
    obtain ⟨machine, w₅, h₅, h⟩ := outcome_bind_eq_ok.mp h
    obtain ⟨hmachine, rfl⟩ := lift_eq_ok.mp h₅
    obtain ⟨rfl, rfl⟩ : _ = p ∧ _ = w' := by simpa using h
    exact ⟨header, used, t₂, stash, t₃, skip, t₄, machine, hheader, hmake, hopen, hskip, hmachine,
      rfl, rfl⟩
  · rintro ⟨header, used, t₂, stash, t₃, skip, t₄, machine, hheader, hmake, hopen, hskip, hmachine,
      rfl, rfl⟩
    refine ⟨(header, used), w, lift_eq_ok.mpr ⟨hheader, rfl⟩, outcome_bind_eq_ok.mpr
      ⟨(), _, sessionOnFiles_eq_ok.mpr ⟨t₂, hmake, rfl⟩, outcome_bind_eq_ok.mpr
      ⟨stash, _, sessionOnFiles_eq_ok.mpr ⟨t₃, hopen, rfl⟩, outcome_bind_eq_ok.mpr
      ⟨skip, _, sessionOnFiles_eq_ok.mpr ⟨t₄, hskip, rfl⟩, ?_⟩⟩⟩⟩
    rw [outcome_get_bind]
    exact outcome_bind_eq_ok.mpr ⟨machine, _, lift_eq_ok.mpr ⟨hmachine, rfl⟩, rfl⟩

/-- Where a session fails before it comes to its commands, and with what files. -/
inductive FailsEarly (o : SessionOptions) (lines : List String) (inputs : ScriptInputs) (w : World) :
    TransferError → FileTree → Prop
  | header {fault : ScriptFault} (hheader : ScriptHeader.parse lines = .error fault) :
    FailsEarly o lines inputs w (.header fault) w.files
  | workDir {header : ScriptHeader} {used : Nat} {e : OsError} {t : FileTree}
    (hheader : ScriptHeader.parse lines = .ok (header, used))
    (hmake : outcome (FileM.makeDirectories o.workDir) w.files = (.error e, t)) :
    FailsEarly o lines inputs w (.os e) t
  | stash {header : ScriptHeader} {used : Nat} {e : StashError} {t₁ t : FileTree}
    (hheader : ScriptHeader.parse lines = .ok (header, used))
    (hmake : outcome (FileM.makeDirectories o.workDir) w.files = (.ok (), t₁))
    (hopen : outcome (openStash o) t₁ = (.error e, t)) : FailsEarly o lines inputs w (.stash e) t
  | skip {header : ScriptHeader} {used : Nat} {s : Stash} {e : TransferError} {t₁ t₂ t : FileTree}
    (hheader : ScriptHeader.parse lines = .ok (header, used))
    (hmake : outcome (FileM.makeDirectories o.workDir) w.files = (.ok (), t₁))
    (hopen : outcome (openStash o) t₁ = (.ok s, t₂))
    (hskip : outcome (findSkip o (lines.drop used)) t₂ = (.error e, t)) :
    FailsEarly o lines inputs w e t
  | machine {header : ScriptHeader} {used : Nat} {s : Stash} {found : RetrySkip} {e : StashError}
    {t₁ t₂ t : FileTree} (hheader : ScriptHeader.parse lines = .ok (header, used))
    (hmake : outcome (FileM.makeDirectories o.workDir) w.files = (.ok (), t₁))
    (hopen : outcome (openStash o) t₁ = (.ok s, t₂))
    (hskip : outcome (findSkip o (lines.drop used)) t₂ = (.ok found, t))
    (hmachine : startMachine o header s inputs { w with files := t } = .error e) :
    FailsEarly o lines inputs w (.stash e) t

/-- **What a session does that does not come to its commands.** -/
theorem prepare_eq_error {lines : List String} {inputs : ScriptInputs} {w w' : World}
    {e : TransferError} :
    outcome (prepare o lines inputs) w = (.error e, w') ↔
      ∃ t, FailsEarly o lines inputs w e t ∧ w' = { w with files := t } := by
  rw [prepare]
  constructor
  · intro h
    rcases outcome_bind_eq_error.mp h with h₁ | ⟨⟨header, used⟩, w₁, hlift, h₁⟩
    · obtain ⟨⟨fault, hheader, rfl⟩, rfl⟩ := lift_eq_error.mp h₁
      exact ⟨_, .header hheader, rfl⟩
    obtain ⟨hheader, hw⟩ := lift_eq_ok.mp hlift
    rw [hw] at h₁
    rcases outcome_bind_eq_error.mp h₁ with h₂ | ⟨⟨⟩, w₂, hmake, h₂⟩
    · obtain ⟨e', t, hmake, rfl, rfl⟩ := sessionOnFiles_eq_error.mp h₂
      exact ⟨_, .workDir hheader hmake, rfl⟩
    obtain ⟨t₁, hmade, rfl⟩ := sessionOnFiles_eq_ok.mp hmake
    rcases outcome_bind_eq_error.mp h₂ with h₃ | ⟨s, w₃, hopen, h₃⟩
    · obtain ⟨e', t, hopen, rfl, rfl⟩ := sessionOnFiles_eq_error.mp h₃
      exact ⟨_, .stash hheader hmade hopen, rfl⟩
    obtain ⟨t₂, hopened, rfl⟩ := sessionOnFiles_eq_ok.mp hopen
    rcases outcome_bind_eq_error.mp h₃ with h₄ | ⟨found, w₄, hskip, h₄⟩
    · obtain ⟨e', t, hskip, rfl, rfl⟩ := sessionOnFiles_eq_error.mp h₄
      exact ⟨_, .skip hheader hmade hopened hskip, rfl⟩
    obtain ⟨t₃, hskipped, rfl⟩ := sessionOnFiles_eq_ok.mp hskip
    rw [outcome_get_bind] at h₄
    rcases outcome_bind_eq_error.mp h₄ with h₅ | ⟨machine, w₅, -, h₅⟩
    · obtain ⟨⟨e', hmachine, rfl⟩, rfl⟩ := lift_eq_error.mp h₅
      exact ⟨_, .machine hheader hmade hopened hskipped hmachine, rfl⟩
    · cases congrArg Prod.fst h₅
  · rintro ⟨t, h, rfl⟩
    cases h with
    | header hheader =>
      exact outcome_bind_eq_error.mpr (.inl (lift_eq_error.mpr ⟨⟨_, hheader, rfl⟩, rfl⟩))
    | workDir hheader hmake =>
      refine outcome_bind_eq_error.mpr (.inr ⟨_, w, lift_eq_ok.mpr ⟨hheader, rfl⟩, ?_⟩)
      exact outcome_bind_eq_error.mpr (.inl (sessionOnFiles_eq_error.mpr ⟨_, _, hmake, rfl, rfl⟩))
    | stash hheader hmake hopen =>
      refine outcome_bind_eq_error.mpr (.inr ⟨_, w, lift_eq_ok.mpr ⟨hheader, rfl⟩, ?_⟩)
      refine outcome_bind_eq_error.mpr (.inr
        ⟨(), _, sessionOnFiles_eq_ok.mpr ⟨_, hmake, rfl⟩, ?_⟩)
      exact outcome_bind_eq_error.mpr (.inl (sessionOnFiles_eq_error.mpr ⟨_, _, hopen, rfl, rfl⟩))
    | skip hheader hmake hopen hskip =>
      refine outcome_bind_eq_error.mpr (.inr ⟨_, w, lift_eq_ok.mpr ⟨hheader, rfl⟩, ?_⟩)
      refine outcome_bind_eq_error.mpr (.inr
        ⟨(), _, sessionOnFiles_eq_ok.mpr ⟨_, hmake, rfl⟩, ?_⟩)
      refine outcome_bind_eq_error.mpr (.inr
        ⟨_, _, sessionOnFiles_eq_ok.mpr ⟨_, hopen, rfl⟩, ?_⟩)
      exact outcome_bind_eq_error.mpr (.inl (sessionOnFiles_eq_error.mpr ⟨_, _, hskip, rfl, rfl⟩))
    | machine hheader hmake hopen hskip hmachine =>
      refine outcome_bind_eq_error.mpr (.inr ⟨_, w, lift_eq_ok.mpr ⟨hheader, rfl⟩, ?_⟩)
      refine outcome_bind_eq_error.mpr (.inr
        ⟨(), _, sessionOnFiles_eq_ok.mpr ⟨_, hmake, rfl⟩, ?_⟩)
      refine outcome_bind_eq_error.mpr (.inr
        ⟨_, _, sessionOnFiles_eq_ok.mpr ⟨_, hopen, rfl⟩, ?_⟩)
      refine outcome_bind_eq_error.mpr (.inr
        ⟨_, _, sessionOnFiles_eq_ok.mpr ⟨_, hskip, rfl⟩, ?_⟩)
      rw [outcome_get_bind]
      exact outcome_bind_eq_error.mpr (.inl (lift_eq_error.mpr ⟨⟨_, hmachine, rfl⟩, rfl⟩))

/-- **A fresh session that gets to its commands** begins with an empty stash and without a
marker. -/
theorem prepare_fresh (hretry : o.retry = false) (hwrite : o.canWrite = true)
    (hplain : o.PlainPartition) {lines : List String} {inputs : ScriptInputs} {w w' : World}
    (hwell : w.files.WellFormed) {p : Prepared}
    (h : outcome (prepare o lines inputs) w = (.ok p, w')) :
    ∃ header used place, ScriptHeader.parse lines = .ok (header, used) ∧
      p.commands = lines.drop used ∧ p.skip = RetrySkip.none ∧
      p.machine = blankMachine o header true inputs w' ∧ w'.device = w.device ∧
      o.Workspace w'.files place ∧ NoEntries o w'.files place ∧
      w'.files.get? (o.markerAt place) = none := by
  obtain ⟨header, used, t₂, stash, t₃, skip, t₄, machine, hheader, hmake, hopen, hskip, hmachine,
    rfl, rfl⟩ := prepare_eq_ok.mp h
  -- the files, step by step
  obtain ⟨-, hwell₂, hwork⟩ := FileM.makeDirectories_eq_ok hmake
  rw [openStash_eq o hwrite, hretry] at hopen
  obtain ⟨rfl, place, hleads, hstash, hstashName, hnone⟩ :=
    open_wiped (hwell₂ hwell) hwork (hplain.noSlash (by decide)) (by simp) hopen
  have hmarkerName : PlainName o.markerName :=
    plainName_of_plainName hplain hstashName (by decide) (by decide) (by decide)
  obtain ⟨hremove, rfl⟩ := (findSkip_fresh hretry hwrite).mp hskip
  obtain ⟨hsize, hdir, rfl⟩ :=
    (FileM.removeIfPresent_eq_ok hleads hmarkerName hplain.markerPath_parts).mp hremove
  have hget := get?_removed t₃ hdir
  have hmarker : o.markerAt place = place ++ [o.markerName] := rfl
  have hwork₃ : o.Workspace t₃ place :=
    ⟨hleads, hstash, hstashName, hmarkerName, hsize, hdir⟩
  refine ⟨header, used, place, hheader, rfl, rfl, ?_, rfl,
    hwork₃.congr (directory_iff_of_get? hget hdir (by simp)), ?_, ?_⟩
  · rw [startMachine, hretry, hwrite] at hmachine
    exact (Except.ok.inj hmachine).symm
  · intro node hnode name hname
    refine hnone node ?_ name hname
    rw [removed] at hnode
    split at hnode
    · exact (List.mem_filter.mp hnode).1
    · exact hnode
  · rw [hmarker, hget, if_pos rfl]

/-- **A session that resumes** takes the work directory as it is. -/
theorem prepare_resumed (hretry : o.retry = true) (hwrite : o.canWrite = true)
    (hplain : o.PlainPartition) {lines : List String} {inputs : ScriptInputs} {w : World}
    {place : Place} (hwork : o.Workspace w.files place) {header : ScriptHeader} {used : Nat}
    (hheader : ScriptHeader.parse lines = .ok (header, used)) {marker : Option RetryMarker}
    (hmarker : RetryMarker.load w.files o.markerPath = .ok marker) :
    outcome (prepare o lines inputs) w =
      (.ok ⟨lines.drop used, RetrySkip.resolve marker (lines.drop used),
        (blankMachine o header false inputs w).counted (o.stashAt place)⟩, w) := by
  have hsited := hwork.sited hplain (s := ⟨o.stashDir, false⟩) rfl
  have hlocate := hwork.stash.locate_self hsited.named
  have hexists : w.files.isDirectory o.stashDir = true :=
    isDirectory_iff.mpr ⟨_, hlocate, hwork.stash.directory⟩
  have hmake : outcome (onFiles .os (FileM.makeDirectories o.workDir)) w = (.ok (), w) :=
    sessionOnFiles_eq_ok.mpr ⟨w.files,
      FileM.makeDirectories_of_leads (leads_below_iff.mp hwork.leads), rfl⟩
  have hopen : outcome (onFiles .stash (openStash o)) w = (.ok ⟨o.stashDir, false⟩, w) := by
    refine sessionOnFiles_eq_ok.mpr ⟨w.files, ?_, rfl⟩
    rw [openStash_eq o hwrite, hretry]
    exact open_eq_ok.mpr ⟨w.files, by rw [hexists]; rfl,
      FileM.makeDirectories_of_leads hwork.stash, by rw [hexists]; rfl⟩
  have hskip : outcome (onFiles id (findSkip o (lines.drop used))) w =
      (.ok (RetrySkip.resolve marker (lines.drop used)), w) := by
    refine sessionOnFiles_eq_ok.mpr ⟨w.files, ?_, rfl⟩
    rw [findSkip_resumed hretry, hmarker]
    rfl
  have hstart : startMachine o header ⟨o.stashDir, false⟩ inputs w =
      .ok ((blankMachine o header false inputs w).counted (o.stashAt place)) := by
    rw [startMachine, hretry, hwrite]
    exact Machine.countStash_eq hsited
  rw [prepare, outcome_bind_of_ok (lift_eq_ok.mpr ⟨hheader, rfl⟩)]
  show outcome (onFiles .os (FileM.makeDirectories o.workDir) >>= _) w = _
  rw [outcome_bind_of_ok hmake, outcome_bind_of_ok hopen, outcome_bind_of_ok hskip,
    outcome_get_bind, outcome_bind_of_ok (lift_eq_ok.mpr ⟨hstart, rfl⟩)]
  rfl

/-! ## The end of a session -/

theorem pruned_eraseBelow {p : Place} (hp : p ≠ []) : Pruned t (t.eraseBelow p) := by
  intro q
  rw [get?_eraseBelow t hp]
  split_ifs
  · exact .inr rfl
  · exact .inl rfl

/-- Removing a file that may be gone already, in a tree from which something was removed. -/
theorem removeIfPresent_pruned {t₁ : FileTree} (h : Pruned t t₁) {p : Path} {place : Place}
    (hlocate : t.locate p = .ok place) (hdir : t.get? place ≠ some .directory) :
    ∃ t₂, outcome (FileM.removeIfPresent p) t₁ = (.ok (), t₂) ∧ Pruned t₁ t₂ ∧
      t₂.node p = .error (.errno Errno.noEntry) := by
  have hne : place ≠ [] := fun h => hdir (h ▸ rfl)
  have hkeep : t₁.get? place = none ∨ t₁.locate p = .error (.errno Errno.noEntry) →
      outcome (FileM.remove p) t₁ = (.error (.errno Errno.noEntry), t₁) →
      ∃ t₂, outcome (FileM.removeIfPresent p) t₁ = (.ok (), t₂) ∧ Pruned t₁ t₂ ∧
        t₂.node p = .error (.errno Errno.noEntry) := by
    intro hgone hrefused
    refine ⟨t₁, FileM.tolerateAbsence_eq_ok.mpr (.inr hrefused), fun _ => .inl rfl, ?_⟩
    rcases hgone with hgone | hgone
    · exact node_pruned h hlocate hgone
    · rw [FileTree.node, hgone]
      rfl
  have hlocate₁ : t₁.locate p = .ok place ∨ t₁.locate p = .error (.errno Errno.noEntry) := by
    rw [FileTree.locate] at hlocate ⊢
    split_ifs at hlocate with hnul hempty
    rw [if_neg hnul, if_neg hempty]
    exact follow_pruned h hlocate
  rcases hlocate₁ with hfound | hlost
  · rcases hnode : t₁.get? place with _ | data | _
    · refine hkeep (.inl hnode) ?_
      rw [FileM.remove, outcome_change]
      simp [hfound, hnode, bind, Except.bind, throw, throwThe, MonadExceptOf.throw]
    · have herase : outcome (FileM.remove p) t₁ = (.ok (), t₁.erase place) := by
        rw [FileM.remove, outcome_change]
        simp [hfound, hnode, bind, Except.bind, pure, Except.pure]
      have hpruned : Pruned t₁ (t₁.erase place) := by
        intro q
        rw [get?_erase t₁ hne]
        split_ifs
        · exact .inr rfl
        · exact .inl rfl
      refine ⟨t₁.erase place, FileM.tolerateAbsence_eq_ok.mpr (.inl herase), hpruned, ?_⟩
      exact node_pruned hpruned hfound (by rw [get?_erase t₁ hne, if_pos rfl])
    · rcases h place with hsame | hnone
      · exact absurd (hsame ▸ hnode) hdir
      · rw [hnone] at hnode
        cases hnode
  · refine hkeep (.inr hlost) ?_
    rw [FileM.remove, outcome_change]
    simp [hlost, bind, Except.bind]

end Session

/-- How removing a stash ends. -/
theorem Stash.freeAll_eq {s : Stash} {t : FileTree} {place : Place} (h : s.Sited t place) :
    outcome s.freeAll t = (.ok (), t.eraseBelow place) := by
  have hremove := Session.removeDirectory_eq_ok.mpr
    ⟨place, h.leads.locate_self h.named, h.leads.directory, rfl⟩
  exact fileMapError_eq_ok.mpr (FileM.tolerateAbsence_eq_ok.mpr (.inl hremove))

namespace Session

open SessionOptions

variable {o : SessionOptions} {place : Place}

/-- **A finished session leaves neither stash nor marker.** -/
theorem cleanUp_workspace (hwrite : o.canWrite = true) (hplain : o.PlainPartition) {w : World}
    (hwork : o.Workspace w.files place) {s : Stash} (hs : s.base = o.stashDir) :
    ∃ w', outcome (cleanUp o s) w = (.ok (), w') ∧ w'.device = w.device ∧
      w'.files.node o.markerPath = .error (.errno Errno.noEntry) ∧
      w'.files.node o.stashDir = .error (.errno Errno.noEntry) := by
  have hlocate := hwork.stash.locate_self (hwork.sited hplain (s := ⟨o.stashDir, true⟩) rfl).named
  have hfree := Stash.freeAll_eq (hwork.sited hplain hs)
  have hne : o.stashAt place ≠ [] := by simp [stashAt]
  have hpruned : Pruned w.files (w.files.eraseBelow (o.stashAt place)) := pruned_eraseBelow hne
  have hgone : (w.files.eraseBelow (o.stashAt place)).get? (o.stashAt place) = none := by
    rw [get?_eraseBelow _ hne, if_pos (List.isPrefixOf_iff_prefix.mpr (List.prefix_refl _))]
  obtain ⟨t₂, hremove, hpruned₂, hmarker⟩ := removeIfPresent_pruned hpruned
    (hwork.leads.locate_of_le hwork.markerPlain hplain.markerPath_parts hwork.markerSize)
    hwork.marker
  refine ⟨{ w with files := t₂ }, ?_, rfl, hmarker,
    node_pruned (hpruned.trans hpruned₂) hlocate ?_⟩
  · rw [cleanUp, outcome_bind_of_ok (sessionOnFiles_eq_ok.mpr ⟨_, hfree, rfl⟩), if_pos hwrite]
    exact sessionOnFiles_eq_ok.mpr ⟨t₂, fileMapError_eq_ok.mpr hremove, rfl⟩
  · rcases hpruned₂ (o.stashAt place) with hsame | hnone
    · rw [hsame, hgone]
    · exact hnone

end Session

end BlockUpdate
