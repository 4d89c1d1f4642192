import BlockUpdate.Proofs.JobSessions
import BlockUpdate.Proofs.KeptRecord
import BlockUpdate.Proofs.RecordFile
import BlockUpdate.Proofs.RecordReset
import Mathlib.Data.List.Nodup

/-!
# What the record tells after many updates

An update may be run again and again, afresh or to go on, for writing or to check only, and each run
may stop with an error in any of its jobs. The record in the work directory is all that one run knows
of those before it. What it says is true of their jobs, and what a run that succeeds relies on is so
too.

- `Update.beforeJobs`, `Update.Reaches`: how far a run gets before it comes to a job.
- `Update.Completed`, `Update.Completes`: a job whose writing session returned and whose final digest
  matched.
- `Update.History`: the sites that runs lead to, and the jobs that were completed on the way there
  since the last fresh start.
- `Update.Tells`: a record that says no more than is true. **`Update.stepJob_tells`**,
  **`runJobs_tells`**, **`run_tells`**: so it stays with each job, with many jobs and with each run.
- **`Update.keepsRecord_dryRun`**: a dry run keeps the record.
- **`Update.record_sound_complete`**: what the record says after any runs, and what a run that
  succeeds relies on.
-/

namespace BlockUpdate

open FileTree PartitionRecord

/-- Where the record of a configuration is. -/
def Config.recordPlace (c : Config) : Place := recordAt c.workDir.ends

namespace Update

/-! ## The course of a run -/

/-- All that a run does before its jobs. -/
def beforeJobs (P : Primitives) (c : Config) : UpdateM (Option Manifest × PartitionRecord) := do
  onFiles (.workDir c.workDir) (FileM.makeDirectories c.workDir)
  let manifest ← lift id (loadManifest P c (← get).files)
  let record ← openRecord c
  onProgress Progress.announce
  return (manifest, record)

/-- All that it does after them. -/
def afterJobs (P : Primitives) (c : Config) (manifest : Option Manifest) : UpdateM Unit := do
  if let some manifest := manifest then
    if c.verifyAfterUpdate && !c.dryRun then
      lift .package (verifyDevices P c manifest (← get).files)
  onProgress Progress.fill

variable {P : Primitives} {now : Timestamp} {c : Config} {job : PartitionJob} {s s' : Site}

theorem run_eq_phases (P : Primitives) (now : Timestamp) (hjobs : c.partitions ≠ []) :
    run P now c = (do
      let found ← beforeJobs P c
      let _ ← runJobs P now c c.partitions found.2
      afterJobs P c found.1) := by
  rw [run_eq P now hjobs, beforeJobs]
  simp only [bind_assoc, pure_bind]
  rfl

theorem runJobs_append (xs ys : List PartitionJob) (record : PartitionRecord) :
    runJobs P now c (xs ++ ys) record =
      (do runJobs P now c ys (← runJobs P now c xs record)) := by
  induction xs generalizing record with
  | nil => simp [runJobs]
  | cons x xs ih =>
    rw [List.cons_append, runJobs, runJobs, bind_assoc]
    simp only [ih]

/-- A run gets past some jobs, with what it has in its record then. -/
def Reaches (P : Primitives) (now : Timestamp) (c : Config) (s : Site) (jobs : List PartitionJob)
    (record : PartitionRecord) (s' : Site) : Prop :=
  ∃ manifest found s₀, outcome (beforeJobs P c) s = (.ok (manifest, found), s₀) ∧
    outcome (runJobs P now c jobs found) s₀ = (.ok record, s')

/-- The site as a job finds it. -/
def atJob (job : PartitionJob) (s : Site) : Site :=
  { s with progress := s.progress.setProportion job.proportion }

/-- **A job is completed**: its device is opened for writing, its session returns, and the digest of
what is to be checked at last is the right one. -/
def Completed (P : Primitives) (c : Config) (job : PartitionJob) (s : Site) : Prop :=
  c.dryRun = false ∧ ∃ d summary w, openDevice s.files job.device true = .ok d ∧
    outcome (Session.runPackage P (sessionOptions c job)
      (Package.ofDirectory s.files c.packageDir) (membersOf job))
        { device := d, files := s.files, progress := s.progress } = (.ok summary, w) ∧
    ∀ ranges sha256, job.verifyRanges = some ranges → job.verifySha256 = some sha256 →
      Checksum.verifyRanges P w.device ranges sha256 = .ok true

/-- A run completes a job when it comes to it, and does not pass over it. -/
def Completes (P : Primitives) (now : Timestamp) (c : Config) (s : Site) (job : PartitionJob) : Prop :=
  ∃ before rest record s', c.partitions = before ++ job :: rest ∧
    Reaches P now c s before record s' ∧ (c.retry && record.isUpdated job.name) = false ∧
      Completed P c job (atJob job s')

/-- A run starts afresh: it may write, does not go on from another one, and comes to its jobs. -/
def StartsAfresh (P : Primitives) (c : Config) (s : Site) : Prop :=
  c.retry = false ∧ c.dryRun = false ∧ ∃ found s', outcome (beforeJobs P c) s = (.ok found, s')

/-- The jobs that are completed when a run has ended, since the last fresh start. -/
def completedAfter (P : Primitives) (now : Timestamp) (c : Config) (s : Site)
    (done : PartitionJob → Prop) (job : PartitionJob) : Prop :=
  Completes P now c s job ∨ done job ∧ ¬ StartsAfresh P c s

/-- **The sites that runs of a configuration lead to**, from one without a record, and the jobs that
were completed since the last fresh start. Every run has its own mode, and ends as it may. Between
two runs anything may happen to the files, but not to the record. -/
inductive History (P : Primitives) (c : Config) : Site → (PartitionJob → Prop) → Prop
  | start {s : Site} (hnone : s.files.file? c.recordPlace = none) : History P c s fun _ => False
  | run {s s' : Site} {done : PartitionJob → Prop} (h : History P c s done) (now : Timestamp)
    (retry dryRun : Bool) {result : Except UpdateError Unit}
    (hrun : outcome (run P now { c with retry, dryRun }) s = (result, s')) :
    History P c s' (completedAfter P now { c with retry, dryRun } s done)
  | change {s s' : Site} {done : PartitionJob → Prop} (h : History P c s done)
    (hsame : s'.files.file? c.recordPlace = s.files.file? c.recordPlace) : History P c s' done

/-! ## Before the jobs -/

section BeforeJobs

variable {manifest : Option Manifest} {record : PartitionRecord}

/-- In a work directory that is there, only the manifest and the record are read. -/
theorem beforeJobs_of_leads {place : Place} (hleads : s.files.Leads c.workDir.parts place)
    (hmanifest : loadManifest P c s.files = .ok manifest)
    (hopen : outcome (openRecord c) s = (.ok record, s')) :
    outcome (beforeJobs P c) s =
      (.ok (manifest, record), { s' with progress := s'.progress.announce }) := by
  have hmake : outcome (onFiles (UpdateError.workDir c.workDir) (FileM.makeDirectories c.workDir)) s =
      (.ok (), s) := by
    rw [outcome_onFiles, FileM.makeDirectories_of_leads hleads]
    rfl
  have hload : outcome (lift id (loadManifest P c s.files) : UpdateM _) s = (.ok manifest, s) := by
    rw [outcome_lift, hmanifest]
    rfl
  rw [beforeJobs, outcome_bind_of_ok hmake, outcome_get_bind, outcome_bind_of_ok hload,
    outcome_bind_of_ok hopen]
  rfl

/-- Only a fresh start that may write loses the record. -/
theorem keepsRecord_beforeJobs (P : Primitives) (c : Config) (s : Site) :
    Leaves (KeepsRecord (c.retry = false ∧ c.dryRun = false) c.workDir.ends) (beforeJobs P c) s := by
  refine Leaves.bind (FileM.keepsFile_makeDirectories c.workDir s.files) fun _ s₁ _ _ =>
    Leaves.get_bind (Leaves.bind (keepsRecord_lift _ _ s₁) fun manifest s₂ _ _ => ?_)
  refine Leaves.bind (Leaves.bind (refl_of (KeepsRecord _ _) s₂) fun record s₃ _ _ => ?_)
    fun _ s₄ _ _ => Leaves.bind (refl_of (KeepsRecord _ _) s₄) fun _ _ _ _ => Leaves.pure _
  refine Leaves.ite (fun hfresh => ?_) fun _ => Leaves.pure _
  have hlost : c.retry = false ∧ c.dryRun = false := by simpa using hfresh
  have hclear : Leaves (KeepsFile (c.retry = false ∧ c.dryRun = false) c.recordPlace) record.clear
      s₃.files :=
    Leaves.bind (FileM.keepsFile_removeIfPresent (.inl hlost) s₃.files).fileMapError
      fun _ _ _ _ => Leaves.pure _
  exact hclear

/-- A run that goes on, or only checks, takes the record as it is. -/
theorem openRecord_kept (hkept : ¬ (c.retry = false ∧ c.dryRun = false)) (s : Site) :
    outcome (openRecord c) s = ((open_ s.files c.workDir).mapError .record, s) := by
  have hfresh : ¬ (!c.retry && !c.dryRun) = true := by simpa using hkept
  rw [openRecord, outcome_bind, outcome_onFiles, outcome_fileLook]
  rcases open_ s.files c.workDir with _ | record
  · rfl
  · show outcome (if (!c.retry && !c.dryRun) = true then _ else pure record) s = _
    rw [if_neg hfresh]
    rfl

/-- **The record that a run begins with**: an empty one, and no file, if it starts afresh; else what
the file says, if there is one. -/
theorem openRecord_eq_ok (hleads : s.files.Leads c.workDir.parts c.workDir.ends)
    (h : outcome (openRecord c) s = (.ok record, s')) :
    record.path = c.workDir.join fileName ∧
      if c.retry = false ∧ c.dryRun = false then
        record.entries = [] ∧ s'.files.file? c.recordPlace = none
      else record.entries = [] ∨
        ∃ data, s'.files.file? c.recordPlace = some data ∧ decode data = some record.entries := by
  split_ifs with hfresh
  · by_cases hdir : s.files.get? (recordAt c.workDir.ends) = some .directory
    · -- a directory in its place is no record
      rw [openRecord, outcome_bind, outcome_onFiles, outcome_fileLook, open_eq hleads, hdir] at h
      cases congrArg Prod.fst h
    · rw [openRecord_fresh hfresh.1 hfresh.2 hleads hdir] at h
      split at h
      · obtain ⟨rfl, rfl⟩ : ⟨c.workDir.join fileName, []⟩ = record ∧ _ = s' := by simpa using h
        refine ⟨rfl, rfl, ?_⟩
        rw [file?, Config.recordPlace, get?_removed _ hdir, if_pos rfl]
      · cases congrArg Prod.fst h
  · rw [openRecord_kept hfresh] at h
    obtain ⟨hopen, rfl⟩ : open_ s.files c.workDir = .ok record ∧ s = s' := by
      obtain ⟨hok, hsite⟩ := Prod.ext_iff.mp h
      exact ⟨mapError_eq_ok.mp hok, hsite⟩
    refine ⟨path_of_open hleads hopen, ?_⟩
    rw [open_eq hleads] at hopen
    split at hopen
    · rename_i data hdata
      split at hopen
      · rename_i entries hdecode
        obtain rfl := Except.ok.inj hopen
        exact .inr ⟨data, file?_eq_some.mpr hdata, hdecode⟩
      · cases hopen
    · cases hopen
    · obtain rfl := Except.ok.inj hopen
      exact .inl rfl

theorem beforeJobs_eq_ok (h : outcome (beforeJobs P c) s = (.ok (manifest, record), s')) :
    record.path = c.workDir.join fileName ∧
      if c.retry = false ∧ c.dryRun = false then
        record.entries = [] ∧ s'.files.file? c.recordPlace = none
      else record.entries = [] ∨
        ∃ data, s'.files.file? c.recordPlace = some data ∧ decode data = some record.entries := by
  obtain ⟨⟨⟩, s₁, hmake, h⟩ := outcome_bind_eq_ok.mp h
  rw [outcome_get_bind] at h
  obtain ⟨manifest', s₂, hload, h⟩ := outcome_bind_eq_ok.mp h
  obtain ⟨record', s₃, hopen, h⟩ := outcome_bind_eq_ok.mp h
  obtain ⟨⟨⟩, s₄, hprogress, h⟩ := outcome_bind_eq_ok.mp h
  obtain rfl : s₁ = s₂ := congrArg Prod.snd hload
  obtain rfl : { s₃ with progress := s₃.progress.announce } = s₄ := congrArg Prod.snd hprogress
  obtain ⟨⟨rfl, rfl⟩, rfl⟩ : (manifest' = manifest ∧ record' = record) ∧ _ = s' := by simpa using h
  -- the work directory is there now
  rw [outcome_onFiles] at hmake
  obtain ⟨hok, hsite⟩ := Prod.ext_iff.mp hmake
  have hmade : outcome (FileM.makeDirectories c.workDir) s.files = (.ok (), s₁.files) :=
    Prod.ext (mapError_eq_ok.mp hok) (congrArg Site.files hsite)
  obtain ⟨place, hleads⟩ := (FileM.makeDirectories_eq_ok hmade).2.2
  obtain rfl := hleads.eq_ends
  have hfound := openRecord_eq_ok hleads hopen
  exact hfound

end BeforeJobs

/-! ## One job -/

section Step

variable {record : PartitionRecord}

/-- A job that is passed over. -/
theorem stepJob_skips (P : Primitives) (now : Timestamp) (s : Site)
    (hskip : (c.retry && record.isUpdated job.name) = true) :
    ∃ progress, outcome (stepJob P now c job record) s = (.ok record, { s with progress }) := by
  rw [stepJob, outcome_bind_of_ok (outcome_onProgress _ s), if_pos hskip]
  exact ⟨_, rfl⟩

/-- A job that is not passed over is recorded if it ends well, in a run that writes. -/
theorem outcome_stepJob (hskip : (c.retry && record.isUpdated job.name) = false) :
    outcome (stepJob P now c job record) s = match outcome (runJob P c job) (atJob job s) with
      | (.error e, s') => (.error (.job job.name e), s')
      | (.ok _, s') =>
        if c.dryRun = true then (.ok record, s')
        else outcome (onFiles .record (record.mark job.name true now)) s' := by
  -- the error of a job is named for the job
  have hnamed : outcome (ExceptT.mk fun s =>
      (((runJob P c job).run s).1.mapError (UpdateError.job job.name),
        ((runJob P c job).run s).2)) (atJob job s) =
        ((outcome (runJob P c job) (atJob job s)).1.mapError (.job job.name),
          (outcome (runJob P c job) (atJob job s)).2) := rfl
  rw [stepJob, outcome_bind_of_ok (outcome_onProgress _ s),
    if_neg (by rw [hskip]; exact Bool.false_ne_true)]
  rcases hjob : outcome (runJob P c job) (atJob job s) with ⟨e | ⟨⟩, s'⟩ <;> rw [hjob] at hnamed
  · exact outcome_bind_of_error hnamed _
  · refine (outcome_bind_of_ok hnamed _).trans ?_
    simp only
    split_ifs <;> rfl

/-- **What a run does with a job**: it passes over it, or the job fails, or it ends and, in a run
that writes, is recorded. -/
theorem stepJob_cases (P : Primitives) (now : Timestamp) (c : Config) (job : PartitionJob)
    (record : PartitionRecord) (s : Site) :
    ((c.retry && record.isUpdated job.name) = true ∧
      ∃ progress, outcome (stepJob P now c job record) s = (.ok record, { s with progress })) ∨
    ((c.retry && record.isUpdated job.name) = false ∧
      ((∃ e s', outcome (runJob P c job) (atJob job s) = (.error e, s') ∧
          outcome (stepJob P now c job record) s = (.error (.job job.name e), s')) ∨
        ∃ s', outcome (runJob P c job) (atJob job s) = (.ok (), s') ∧
          outcome (stepJob P now c job record) s =
            if c.dryRun = true then (.ok record, s')
            else outcome (onFiles .record (record.mark job.name true now)) s')) := by
  cases hskip : c.retry && record.isUpdated job.name with
  | true => exact .inl ⟨rfl, stepJob_skips P now s hskip⟩
  | false =>
    refine .inr ⟨rfl, ?_⟩
    rw [outcome_stepJob hskip]
    rcases outcome (runJob P c job) (atJob job s) with ⟨e | ⟨⟩, s'⟩
    · exact .inl ⟨e, s', rfl, rfl⟩
    · exact .inr ⟨s', rfl, rfl⟩

end Step

/-- What a check of the final digest that succeeds has found. -/
theorem checkRanges_eq_ok {d : Device} (h : outcome (checkRanges P job d) s = (.ok (), s'))
    {ranges sha256 : String} (hranges : job.verifyRanges = some ranges)
    (hsha : job.verifySha256 = some sha256) : Checksum.verifyRanges P d ranges sha256 = .ok true := by
  rw [checkRanges, hranges, hsha] at h
  obtain ⟨found, s₁, hfound, h⟩ := outcome_bind_eq_ok.mp h
  have hok := mapError_eq_ok.mp (congrArg Prod.fst hfound)
  cases found with
  | true => exact hok
  | false => cases congrArg Prod.fst h

/-- A job of a run that writes is completed if it ends well. -/
theorem completed_of_runJob (hwrite : c.dryRun = false)
    (h : outcome (runJob P c job) s = (.ok (), s')) : Completed P c job s := by
  rw [runJob, outcome_get_bind] at h
  obtain ⟨d, s₁, hopen, h⟩ := outcome_bind_eq_ok.mp h
  obtain rfl : s = s₁ := congrArg Prod.snd hopen
  have hopened : openDevice s.files job.device true = .ok d := by
    have := mapError_eq_ok.mp (congrArg Prod.fst hopen)
    rwa [hwrite] at this
  obtain ⟨d', s₂, hsession, h⟩ := outcome_bind_eq_ok.mp h
  rw [if_pos (by rw [hwrite]; rfl)] at h
  -- the session returns the device that is checked
  let w : World := { device := d, files := s.files, progress := s.progress }
  have hresult : ((outcome (Session.runPackage P (sessionOptions c job)
      (Package.ofDirectory s.files c.packageDir) (membersOf job)) w).1.map fun _ =>
        (outcome (Session.runPackage P (sessionOptions c job)
          (Package.ofDirectory s.files c.packageDir) (membersOf job)) w).2.device).mapError
            JobError.session = .ok d' := congrArg Prod.fst hsession
  rcases hrun : outcome (Session.runPackage P (sessionOptions c job)
    (Package.ofDirectory s.files c.packageDir) (membersOf job)) w with ⟨e | summary, w'⟩ <;>
      rw [hrun] at hresult
  · cases hresult
  · obtain rfl : w'.device = d' := Except.ok.inj hresult
    exact ⟨hwrite, d, summary, w', hopened, hrun, fun _ _ => checkRanges_eq_ok h⟩

/-! ## What the record tells -/

/-- Whatever is said to be updated is a job that was completed. -/
def Backs (c : Config) (done : PartitionJob → Prop) (entries : List (String × PartitionStatus)) :
    Prop :=
  ∀ name status, (name, status) ∈ entries → status.updated = true →
    ∃ job ∈ c.partitions, job.name = name ∧ done job

/-- So is what the file of the record says, if it can be read. -/
def BacksFile (c : Config) (done : PartitionJob → Prop) (t : FileTree) : Prop :=
  ∀ data entries, t.file? c.recordPlace = some data → decode data = some entries →
    Backs c done entries

variable {done done' : PartitionJob → Prop} {entries : List (String × PartitionStatus)}
  {t t' : FileTree} {lost : Prop}

theorem backs_nil : Backs c done [] := fun _ _ h => absurd h List.not_mem_nil

theorem Backs.mono (h : Backs c done entries) (hmore : ∀ job, done job → done' job) :
    Backs c done' entries := fun name status hmem hupdated =>
  let ⟨job, hjob, hname, hdone⟩ := h name status hmem hupdated
  ⟨job, hjob, hname, hmore job hdone⟩

theorem BacksFile.mono (h : BacksFile c done t) (hmore : ∀ job, done job → done' job) :
    BacksFile c done' t := fun data entries hfile hdecode => (h data entries hfile hdecode).mono hmore

theorem backsFile_of_none (h : t.file? c.recordPlace = none) : BacksFile c done t := by
  intro data entries hfile
  rw [h] at hfile
  cases hfile

theorem BacksFile.congr (h : BacksFile c done t)
    (hsame : t'.file? c.recordPlace = t.file? c.recordPlace) : BacksFile c done t' := by
  intro data entries hfile
  rw [hsame] at hfile
  exact h data entries hfile

/-- A record that is kept or lost says nothing new. -/
theorem BacksFile.kept (h : BacksFile c done t) (hkept : KeepsFile lost c.recordPlace t t') :
    BacksFile c done t' := by
  rcases hkept with hsame | ⟨-, hnone⟩
  · exact h.congr hsame
  · exact backsFile_of_none hnone

/-- One more job is recorded. -/
theorem Backs.insert (h : Backs c done entries) (hjob : job ∈ c.partitions) (hdone : done job)
    (status : PartitionStatus) : Backs c done (PartitionRecord.insert job.name status entries) := by
  intro name status' hmem hupdated
  rcases mem_insert hmem with heq | hmem
  · obtain ⟨rfl, -⟩ := Prod.ext_iff.mp heq
    exact ⟨job, hjob, rfl, hdone⟩
  · exact h name status' hmem hupdated

theorem decode_empty : decode ByteArray.empty = none := by cbv

/-- **Recording a job** leaves a file that says no more than is true, also when it fails. -/
theorem backsFile_mark {record : PartitionRecord} (hpath : record.path = c.workDir.join fileName)
    (hfile : BacksFile c done t) (partition : String)
    (hrecord : Backs c done (PartitionRecord.insert partition ⟨true, now⟩ record.entries)) :
    BacksFile c done (outcome (record.mark partition true now) t).2 := by
  have hends : record.path.ends = c.recordPlace := by
    rw [hpath, Path.ends_join _ plainName_fileName]
    rfl
  have htree : (outcome (record.mark partition true now) t).2 = (outcome (FileM.overwrite record.path
      (encode (PartitionRecord.insert partition ⟨true, now⟩ record.entries))) t).2 := by
    rw [mark, outcome_bind, outcome_fileMapError]
    rcases outcome (FileM.overwrite record.path _) t with ⟨_ | _, _⟩ <;> rfl
  intro data entries hdata hdecode
  rw [htree, ← hends] at hdata
  rcases FileM.file?_overwrite record.path
    (encode (PartitionRecord.insert partition ⟨true, now⟩ record.entries)) t with hsame | hsame | hsame
      <;> rw [hsame] at hdata
  · exact hfile data entries (hends ▸ hdata) hdecode
  · obtain rfl := Option.some.inj hdata
    rw [decode_empty] at hdecode
    cases hdecode
  · obtain rfl := Option.some.inj hdata
    intro name status hmem hupdated
    obtain ⟨recorded, hrecorded, hflag⟩ := updated_of_decode hdecode hmem hupdated
    exact hrecord name recorded hrecorded hflag

/-! ## Jobs in order -/

section Jobs

variable {before rest : List PartitionJob} {record record' : PartitionRecord}

theorem Reaches.step (h : Reaches P now c s before record s')
    {s'' : Site} (hstep : outcome (stepJob P now c job record) s' = (.ok record', s'')) :
    Reaches P now c s (before ++ [job]) record' s'' := by
  obtain ⟨manifest, found, s₀, hfound, hjobs⟩ := h
  refine ⟨manifest, found, s₀, hfound, ?_⟩
  rw [runJobs_append, outcome_bind_of_ok hjobs, runJobs, outcome_bind_of_ok hstep]
  rfl

theorem mark_eq_ok {partition : String} {updated : Bool}
    (h : outcome (record.mark partition updated now) t = (.ok record', t')) :
    record' = { record with
      entries := PartitionRecord.insert partition ⟨updated, now⟩ record.entries } := by
  obtain ⟨⟨⟩, t₁, -, hdone⟩ := outcome_bind_eq_ok.mp h
  exact (Except.ok.inj (congrArg Prod.fst hdone)).symm

theorem mem_of_isUpdated {name : String} (h : record.isUpdated name = true) :
    ∃ status, (name, status) ∈ record.entries ∧ status.updated = true := by
  rw [isUpdated, status, Option.any_eq_true] at h
  obtain ⟨status, hlookup, hupdated⟩ := h
  obtain ⟨front, back, hentries, -⟩ := List.lookup_eq_some_iff.mp hlookup
  exact ⟨status, by rw [hentries]; simp, hupdated⟩

/-- A record in hand that tells no more than is true, nor does the file of the record. -/
structure Tells (c : Config) (done : PartitionJob → Prop) (record : PartitionRecord) (s : Site) :
    Prop where
  path : record.path = c.workDir.join fileName
  entries : Backs c done record.entries
  file : BacksFile c done s.files

/-- A job is done, or one of its name. -/
def Named (c : Config) (done : PartitionJob → Prop) (job : PartitionJob) : Prop :=
  ∃ job' ∈ c.partitions, job'.name = job.name ∧ done job'

/-- **One job**: however it ends, the record tells no more than is true, and if it ends well in a run
that writes, the job is done. -/
theorem stepJob_tells (P : Primitives) (now : Timestamp)
    (hdevice : job.device.ends ≠ c.recordPlace) (hjob : job ∈ c.partitions)
    (h : Tells c done record s)
    (hcompleted : (c.retry && record.isUpdated job.name) = false → Completed P c job (atJob job s) →
      done job) :
    BacksFile c done (outcome (stepJob P now c job record) s).2.files ∧
      ∀ record' s', outcome (stepJob P now c job record) s = (.ok record', s') →
        Tells c done record' s' ∧ (c.dryRun = false → Named c done job) := by
  have hkept : Leaves (KeepsRecord True c.workDir.ends) (runJob P c job) (atJob job s) :=
    keepsRecord_runJob P hdevice (.inl trivial) (atJob job s)
  rcases stepJob_cases P now c job record s with ⟨hskip, progress, hstep⟩ |
    ⟨hskip, ⟨e, s₁, hrun, hstep⟩ | ⟨s₁, hrun, hstep⟩⟩
  · -- a job that is passed over is in the record
    rw [hstep]
    refine ⟨h.file, fun record' s' hok => ?_⟩
    obtain ⟨rfl, rfl⟩ : record = record' ∧ _ = s' := by simpa using hok
    obtain ⟨status, hmem, hupdated⟩ := mem_of_isUpdated (Bool.and_eq_true_iff.mp hskip).2
    exact ⟨⟨h.path, h.entries, h.file⟩, fun _ => h.entries job.name status hmem hupdated⟩
  · rw [Leaves, hrun] at hkept
    rw [hstep]
    exact ⟨h.file.kept hkept, fun record' s' hok => by cases congrArg Prod.fst hok⟩
  · rw [Leaves, hrun] at hkept
    have hfile : BacksFile c done s₁.files := BacksFile.kept h.file hkept
    rw [hstep]
    split_ifs with hdry
    · refine ⟨hfile, fun record' s' hok => ?_⟩
      obtain ⟨rfl, rfl⟩ : record = record' ∧ s₁ = s' := by simpa using hok
      exact ⟨⟨h.path, h.entries, hfile⟩, fun hwrite => absurd hdry (by simp [hwrite])⟩
    · have hdone : done job :=
        hcompleted hskip (completed_of_runJob (Bool.eq_false_iff.mpr hdry) hrun)
      have hentries := h.entries.insert hjob hdone ⟨true, now⟩
      have hmarked := backsFile_mark h.path hfile job.name hentries
      refine ⟨hmarked, fun record' s' hok => ?_⟩
      rw [outcome_onFiles] at hok
      rcases hmark : outcome (record.mark job.name true now) s₁.files with ⟨e | marked, t⟩ <;>
        rw [hmark] at hok hmarked
      · cases congrArg Prod.fst hok
      · obtain ⟨rfl, rfl⟩ : marked = record' ∧ _ = s' := by simpa [Except.mapError] using hok
        obtain rfl := mark_eq_ok hmark
        exact ⟨⟨h.path, hentries, hmarked⟩, fun _ => ⟨job, hjob, rfl, hdone⟩⟩

/-- **The jobs of a run**, from some job on, one after the other. -/
theorem runJobs_tells (hdevices : ∀ job ∈ c.partitions, job.device.ends ≠ c.recordPlace)
    (hcompletes : ∀ job, Completes P now c s job → done job) (hjobs : c.partitions = before ++ rest)
    (hreach : Reaches P now c s before record s') (h : Tells c done record s') :
    BacksFile c done (outcome (runJobs P now c rest record) s').2.files ∧
      ∀ record' s'', outcome (runJobs P now c rest record) s' = (.ok record', s'') →
        c.dryRun = false → ∀ job ∈ rest, Named c done job := by
  induction rest generalizing before record s' with
  | nil => exact ⟨h.file, fun _ _ _ _ job hjob => absurd hjob List.not_mem_nil⟩
  | cons job rest ih =>
    have hjob : job ∈ c.partitions := by simp [hjobs]
    have hnext : c.partitions = before ++ [job] ++ rest := by simp [hjobs]
    obtain ⟨hfile, hstep⟩ := stepJob_tells P now (hdevices job hjob) hjob h fun hskip hcompleted =>
      hcompletes job ⟨before, rest, record, s', hjobs, hreach, hskip, hcompleted⟩
    rw [runJobs]
    rcases hrun : outcome (stepJob P now c job record) s' with ⟨e | record₁, s₁⟩
    · rw [outcome_bind_of_error hrun]
      rw [hrun] at hfile
      exact ⟨hfile, fun record' s'' hok => by cases congrArg Prod.fst hok⟩
    · obtain ⟨htells, hnamed⟩ := hstep record₁ s₁ hrun
      rw [outcome_bind_of_ok hrun]
      obtain ⟨hfile', hall⟩ := ih hnext (hreach.step hrun) htells
      refine ⟨hfile', fun record' s'' hok hwrite job' hjob' => ?_⟩
      rcases List.mem_cons.mp hjob' with rfl | hjob'
      · exact hnamed hwrite
      · exact hall record' s'' hok hwrite job' hjob'

end Jobs

/-! ## Whole runs -/

theorem keepsRecord_afterJobs (manifest : Option Manifest) (dir : Place) (s : Site) :
    Leaves (KeepsRecord lost dir) (afterJobs P c manifest) s := by
  have hfill : ∀ s, Leaves (KeepsRecord lost dir)
      (onProgress Progress.fill : UpdateM Unit) s := fun s => refl_of (KeepsRecord lost dir) s
  cases manifest with
  | none => exact hfill s
  | some manifest =>
    show Leaves _ (if (c.verifyAfterUpdate && !c.dryRun) = true then _ else _) s
    exact Leaves.ite (fun _ => Leaves.get_bind (Leaves.bind (keepsRecord_lift _ _ s)
      fun _ s₁ _ _ => hfill s₁)) fun _ => hfill s

/-- Jobs that are only checked leave the record alone. -/
theorem keepsRecord_runJobs_dry (hdry : c.dryRun = true) {jobs : List PartitionJob}
    (hjobs : ∀ job ∈ jobs, job.device.ends ≠ c.recordPlace ∧
      ¬ (sessionOptions c job).scratchDir.ends <+: c.recordPlace)
    (record : PartitionRecord) (s : Site) :
    Leaves (KeepsRecord False c.workDir.ends) (runJobs P now c jobs record) s := by
  induction jobs generalizing record s with
  | nil => exact Leaves.pure _
  | cons job rest ih =>
    obtain ⟨hdevice, hscratch⟩ := hjobs job List.mem_cons_self
    have hbase : (sessionOptions c job).baseDir = (sessionOptions c job).scratchDir :=
      SessionOptions.baseDir_of_dry (by simp [sessionOptions, hdry])
    have hjob : Leaves (KeepsRecord False c.workDir.ends) (runJob P c job) (atJob job s) :=
      keepsRecord_runJob P hdevice (.inr (hbase ▸ hscratch)) (atJob job s)
    refine Leaves.bind ?_ fun record' s' _ _ =>
      ih (fun job' hjob' => hjobs job' (List.mem_cons_of_mem _ hjob')) record' s'
    unfold Leaves
    rcases stepJob_cases P now c job record s with ⟨-, progress, hstep⟩ |
      ⟨-, ⟨e, s₁, hrun, hstep⟩ | ⟨s₁, hrun, hstep⟩⟩
    · rw [hstep]
      exact refl_of (KeepsRecord False c.workDir.ends) s
    · rw [hstep]
      rwa [Leaves, hrun] at hjob
    · rw [hstep, if_pos hdry]
      rwa [Leaves, hrun] at hjob

/-- **What one run makes of the record.** If it told no more than is true before, it does so after,
and if the run ends well and may write, every job is done. -/
theorem run_tells (P : Primitives) (now : Timestamp)
    (hdevices : ∀ job ∈ c.partitions, job.device.ends ≠ c.recordPlace)
    (h : BacksFile c done s.files) :
    BacksFile c (completedAfter P now c s done) (outcome (run P now c) s).2.files ∧
      ∀ s', outcome (run P now c) s = (.ok (), s') → c.dryRun = false →
        ∀ job ∈ c.partitions, Named c (completedAfter P now c s done) job := by
  by_cases hjobs : c.partitions = []
  · -- where there are no jobs, none is said to be updated
    have hrun : outcome (run P now c) s = (.ok (), s) := by
      rw [run, hjobs]
      rfl
    rw [hrun]
    refine ⟨fun data entries hfile hdecode name status hmem hupdated => ?_, fun s' _ _ job hjob => ?_⟩
    · obtain ⟨job, hjob, -⟩ := h data entries hfile hdecode name status hmem hupdated
      exact absurd (hjobs ▸ hjob) List.not_mem_nil
    · exact absurd (hjobs ▸ hjob) List.not_mem_nil
  rw [run_eq_phases P now hjobs]
  have hkept := keepsRecord_beforeJobs P c s
  rcases hbefore : outcome (beforeJobs P c) s with ⟨e | ⟨manifest, record⟩, s₀⟩
  · -- nothing starts afresh that does not come to its jobs
    rw [outcome_bind_of_error hbefore]
    rw [Leaves, hbefore] at hkept
    refine ⟨(BacksFile.kept h hkept).mono fun job hdone => .inr ⟨hdone, ?_⟩,
      fun s' hok => by cases congrArg Prod.fst hok⟩
    rintro ⟨-, -, found, s₁, hstarts⟩
    cases congrArg Prod.fst (hbefore.symm.trans hstarts)
  rw [outcome_bind_of_ok hbefore]
  rw [Leaves, hbefore] at hkept
  have htells : Tells c (completedAfter P now c s done) record s₀ := by
    obtain ⟨hpath, hfound⟩ := beforeJobs_eq_ok hbefore
    split_ifs at hfound with hfresh
    · exact ⟨hpath, hfound.1 ▸ backs_nil, backsFile_of_none hfound.2⟩
    · have hfile : BacksFile c (completedAfter P now c s done) s₀.files :=
        (BacksFile.kept h hkept).mono fun job hdone =>
          .inr ⟨hdone, fun hstarts => hfresh ⟨hstarts.1, hstarts.2.1⟩⟩
      refine ⟨hpath, ?_, hfile⟩
      rcases hfound with hnone | ⟨data, hdata, hdecode⟩
      · exact hnone ▸ backs_nil
      · exact hfile data _ hdata hdecode
  have hreach : Reaches P now c s [] record s₀ := ⟨manifest, record, s₀, hbefore, rfl⟩
  obtain ⟨hfile, hall⟩ := runJobs_tells hdevices (fun job => .inl) rfl hreach htells
  rcases hrun : outcome (runJobs P now c c.partitions record) s₀ with ⟨e | record', s₁⟩ <;>
    rw [hrun] at hfile
  · rw [outcome_bind_of_error hrun]
    exact ⟨hfile, fun s' hok => by cases congrArg Prod.fst hok⟩
  · have hafter : Leaves (KeepsRecord True c.workDir.ends) (afterJobs P c manifest) s₁ :=
      keepsRecord_afterJobs manifest _ s₁
    rw [outcome_bind_of_ok hrun]
    exact ⟨BacksFile.kept hfile hafter, fun s' _ => hall record' s₁ hrun⟩

/-- **A dry run keeps the record**, unless one of its stashes is a directory above it. -/
theorem keepsRecord_dryRun (P : Primitives) (now : Timestamp) (hdry : c.dryRun = true)
    (hdevices : ∀ job ∈ c.partitions, job.device.ends ≠ c.recordPlace)
    (hscratch : ∀ job ∈ c.partitions, ¬ (sessionOptions c job).scratchDir.ends <+: c.recordPlace)
    (s : Site) : Leaves (KeepsRecord False c.workDir.ends) (run P now c) s := by
  by_cases hjobs : c.partitions = []
  · rw [run, hjobs]
    exact Leaves.pure _
  rw [run_eq_phases P now hjobs]
  have hbefore : Leaves (KeepsRecord False c.workDir.ends) (beforeJobs P c) s :=
    (keepsRecord_beforeJobs P c s).imp_right fun h => by simp [hdry] at h
  refine Leaves.bind hbefore fun found s₁ _ _ => Leaves.bind (keepsRecord_runJobs_dry hdry
    (fun job hjob => ⟨hdevices job hjob, hscratch job hjob⟩) found.2 s₁) fun _ s₂ _ _ => ?_
  exact keepsRecord_afterJobs found.1 _ s₂

/-! ## Many runs -/

/-- **The record tells the truth**, whatever the runs were. -/
theorem History.backsFile (hdevices : ∀ job ∈ c.partitions, job.device.ends ≠ c.recordPlace)
    (h : History P c s done) : BacksFile c done s.files := by
  induction h with
  | start hnone => exact backsFile_of_none hnone
  | run _ now retry dryRun hrun ih =>
    have hfile := (run_tells P now (c := { c with retry, dryRun }) hdevices ih).1
    rw [hrun] at hfile
    exact hfile
  | change _ hsame ih => exact ih.congr hsame

/-- What is read says no more than the file does. -/
theorem exists_of_isUpdated {record : PartitionRecord} {name : String} (h : BacksFile c done t)
    (hopen : open_ t c.workDir = .ok record) (hupdated : record.isUpdated name = true) :
    ∃ job ∈ c.partitions, job.name = name ∧ done job := by
  obtain ⟨status, hmem, hflag⟩ := mem_of_isUpdated hupdated
  rw [open_] at hopen
  split at hopen
  · rename_i data hread
    have hplace := file?_of_read hread
    rw [Path.ends_join _ plainName_fileName] at hplace
    split at hopen
    · rename_i entries hdecode
      obtain rfl := Except.ok.inj hopen
      exact h data entries hplace hdecode name status hmem hflag
    · cases hopen
  · -- a record that is not there says nothing
    split_ifs at hopen
    obtain rfl := Except.ok.inj hopen
    exact absurd hmem List.not_mem_nil
  · cases hopen

/-! ## A run of the sample -/

/-- The record of the sample when it is done with some partitions. -/
def recordOf (names : List String) : PartitionRecord :=
  ⟨plainUpdate.workDir.join fileName, names.map fun name => (name, ⟨true, ⟨0, 0⟩⟩)⟩

/-- The file of this record. -/
def recordNode (names : List String) : Place × Node :=
  (["w_verify_tmp", "partition_record.json"], .file (encode (recordOf names).entries))

theorem inWork_recordNode (names : List String) : InWork [recordNode names] := inWork_cons inWork_nil

/-- It starts without a record. -/
theorem outcome_beforeJobs_plainUpdate (jobs : List PartitionJob) (more : List (String × Bytes))
    (progress : Progress) :
    outcome (beforeJobs .standard { plainUpdate with partitions := jobs })
      ⟨plainTree [] more, progress⟩ =
        (.ok (none, recordOf []), ⟨plainTree [] more, progress.announce⟩) := by
  have hleads := leads_work more inWork_nil
  have hnone : (plainTree [] more).get? (recordAt ["w_verify_tmp"]) = none :=
    get?_plainTree_inWork more fileName
  have hopen : outcome (openRecord { plainUpdate with partitions := jobs })
      ⟨plainTree [] more, progress⟩ = (.ok (recordOf []), ⟨plainTree [] more, progress⟩) := by
    have hempty : open_ (plainTree [] more) plainUpdate.workDir = .ok (recordOf []) := by
      rw [open_eq hleads, hnone]
      rfl
    rw [openRecord_fresh rfl rfl hleads (by simp [hnone])]
    simp only [hempty, removed, hnone]
    rfl
  exact beforeJobs_of_leads hleads rfl hopen

/-- What is read of a record that it left. -/
theorem open_plainTree {others : List (Place × Node)} {more : List (String × Bytes)}
    {names : List String} (h : InWork others)
    (hfile : (plainTree others more).get? (recordAt ["w_verify_tmp"]) = some (recordNode names).2)
    (hdecode : decode (encode (recordOf names).entries) = some (recordOf names).entries) :
    open_ (plainTree others more) plainUpdate.workDir = .ok (recordOf names) := by
  rw [open_eq (leads_work more h), hfile, recordNode]
  simp only [hdecode]
  rfl

/-- It goes on with this record. -/
theorem outcome_beforeJobs_kept {others : List (Place × Node)} {more : List (String × Bytes)}
    {names : List String} (h : InWork others)
    (hopen : open_ (plainTree others more) plainUpdate.workDir = .ok (recordOf names))
    (jobs : List PartitionJob) (dryRun : Bool) (progress : Progress) :
    outcome (beforeJobs .standard { plainUpdate with partitions := jobs, retry := true, dryRun })
      ⟨plainTree others more, progress⟩ =
        (.ok (none, recordOf names), ⟨plainTree others more, progress.announce⟩) := by
  have hrecord : outcome
      (openRecord { plainUpdate with partitions := jobs, retry := true, dryRun })
        ⟨plainTree others more, progress⟩ =
          (.ok (recordOf names), ⟨plainTree others more, progress⟩) := by
    rw [openRecord_kept (by simp)]
    show ((open_ (plainTree others more) plainUpdate.workDir).mapError _, _) = _
    rw [hopen]
    rfl
  exact beforeJobs_of_leads (leads_work more h) rfl hrecord

/-- The first partition is recorded when it is done. -/
theorem stepJob_plainJob (jobs : List PartitionJob) (more : List (String × Bytes))
    (progress : Progress) :
    outcome (stepJob .standard ⟨0, 0⟩ { plainUpdate with partitions := jobs } plainJob (recordOf []))
      ⟨plainTree [] more, progress⟩ = (.ok (recordOf ["a"]),
        ⟨plainTree [recordNode ["a"]] more, progress.setProportion plainJob.proportion⟩) := by
  have hmark : outcome ((recordOf []).mark "a" true ⟨0, 0⟩) (plainTree [] more) =
      (.ok (recordOf ["a"]), ⟨recordNode ["a"] :: (plainTree [] more).nodes⟩) := by
    have hnone : (plainTree [] more).get? (recordAt ["w_verify_tmp"]) = none :=
      get?_plainTree_inWork more fileName
    have habsent : ∀ node ∈ (plainTree [] more).nodes, node.1 ≠ recordAt ["w_verify_tmp"] := by
      intro node hnode heq
      have hlost := List.lookup_eq_none_iff.mp hnone node hnode
      simp [heq] at hlost
    rw [mark_eq (leads_work more inWork_nil) rfl (by simp [hnone]), written_of_absent habsent]
    rfl
  rw [outcome_stepJob rfl, show outcome (runJob .standard _ plainJob)
    (atJob plainJob ⟨plainTree [] more, progress⟩) = _ from outcome_plainJob jobs more _]
  show outcome (onFiles UpdateError.record ((recordOf []).mark "a" true ⟨0, 0⟩)) _ = _
  rw [outcome_onFiles, hmark]
  rfl

/-- What the sample leaves. -/
theorem outcome_run_plainUpdate :
    ∃ progress, outcome (run .standard ⟨0, 0⟩ plainUpdate) ⟨plainTree [] [], {}⟩ =
      (.ok (), ⟨plainTree [recordNode ["a"]] [], progress⟩) := by
  have hbefore : outcome (beforeJobs .standard plainUpdate) ⟨plainTree [] [], {}⟩ = _ :=
    outcome_beforeJobs_plainUpdate [plainJob] [] {}
  have hjobs : outcome (runJobs .standard ⟨0, 0⟩ plainUpdate plainUpdate.partitions (recordOf []))
      ⟨plainTree [] [], ({} : Progress).announce⟩ = _ :=
    outcome_bind_of_ok (stepJob_plainJob [plainJob] [] _) _
  refine ⟨(({} : Progress).announce.setProportion plainJob.proportion).fill, ?_⟩
  rw [run_eq_phases .standard ⟨0, 0⟩ (List.cons_ne_nil _ _), outcome_bind_of_ok hbefore,
    outcome_bind_of_ok hjobs]
  rfl

theorem open_recordNode :
    open_ (plainTree [recordNode ["a"]] []) plainUpdate.workDir = .ok (recordOf ["a"]) :=
  open_plainTree (inWork_recordNode ["a"]) rfl (by decide +kernel)

/-- The sample passes over its partition when it goes on. -/
theorem outcome_run_again (progress : Progress) :
    ∃ s, outcome (run .standard ⟨0, 0⟩ { plainUpdate with retry := true })
      ⟨plainTree [recordNode ["a"]] [], progress⟩ = (.ok (), s) := by
  let c : Config := { plainUpdate with retry := true }
  have hbefore : outcome (beforeJobs .standard c) ⟨plainTree [recordNode ["a"]] [], progress⟩ = _ :=
    outcome_beforeJobs_kept (inWork_recordNode ["a"]) open_recordNode [plainJob] false progress
  obtain ⟨progress', hskip⟩ : ∃ progress', outcome (stepJob .standard ⟨0, 0⟩ c plainJob
      (recordOf ["a"])) ⟨plainTree [recordNode ["a"]] [], progress.announce⟩ =
        (.ok (recordOf ["a"]), ⟨plainTree [recordNode ["a"]] [], progress'⟩) :=
    stepJob_skips .standard ⟨0, 0⟩ _ rfl
  have hjobs : outcome (runJobs .standard ⟨0, 0⟩ c c.partitions (recordOf ["a"]))
      ⟨plainTree [recordNode ["a"]] [], progress.announce⟩ = _ := outcome_bind_of_ok hskip _
  refine ⟨⟨plainTree [recordNode ["a"]] [], progress'.fill⟩, ?_⟩
  show outcome (run .standard ⟨0, 0⟩ c) _ = _
  rw [run_eq_phases .standard ⟨0, 0⟩ (List.cons_ne_nil _ _), outcome_bind_of_ok hbefore,
    outcome_bind_of_ok hjobs]
  rfl

/-! ## The record and the jobs -/

/-- **The record is sound and complete.** A configuration is run again and again, each time afresh
or to go on, for writing or to check only, from where there is no record; each run ends as it may.

A partition that the record says to be updated has a job that was completed since the last fresh
start. When a run that may write succeeds, every job was completed since then, those that the run
passed over included. A dry run changes nothing in the record, if none of its stashes is a directory
above it.

No device may be the record itself. -/
theorem record_sound_complete (P : Primitives) (c : Config)
    (hnames : (c.partitions.map (·.name)).Nodup)
    (hdevices : ∀ job ∈ c.partitions, job.device.ends ≠ c.recordPlace)
    (s : Site) (done : PartitionJob → Prop) (h : History P c s done) :
    (∀ record name, open_ s.files c.workDir = .ok record → record.isUpdated name = true →
      ∃ job ∈ c.partitions, job.name = name ∧ done job) ∧
    (∀ now retry s', outcome (run P now { c with retry, dryRun := false }) s = (.ok (), s') →
      ∀ job ∈ c.partitions, completedAfter P now { c with retry, dryRun := false } s done job) ∧
    ((∀ job ∈ c.partitions, ¬ (sessionOptions c job).scratchDir.ends <+: c.recordPlace) →
      ∀ now retry, (outcome (run P now { c with retry, dryRun := true }) s).2.files.file?
        c.recordPlace = s.files.file? c.recordPlace) := by
  have hfile := h.backsFile hdevices
  refine ⟨fun record name => exists_of_isUpdated hfile, fun now retry s' hrun job hjob => ?_,
    fun hscratch now retry => ?_⟩
  · obtain ⟨job', hjob', hname, hdone⟩ := (run_tells P now (c := { c with retry, dryRun := false })
      hdevices hfile).2 s' hrun rfl job hjob
    obtain rfl := List.inj_on_of_nodup_map hnames hjob' hjob hname
    exact hdone
  · have hkept : Leaves (KeepsRecord False c.workDir.ends)
        (run P now { c with retry, dryRun := true }) s :=
      keepsRecord_dryRun (c := { c with retry, dryRun := true }) P now rfl hdevices hscratch s
    exact KeepsFile.eq hkept

/-- The sample is run, and run again to go on; the second run passes over its partition, which was
completed by the first. -/
theorem record_sound_complete_plainUpdate :
    let start : Site := ⟨plainTree [] [], {}⟩
    let s := (outcome (run .standard ⟨0, 0⟩ plainUpdate) start).2
    let done := completedAfter .standard ⟨0, 0⟩ plainUpdate start fun _ => False
    let again := { plainUpdate with retry := true, dryRun := false }
    History .standard plainUpdate s done ∧
    (∃ record, open_ s.files plainUpdate.workDir = .ok record ∧ record.isUpdated "a" = true) ∧
    (∃ job ∈ plainUpdate.partitions, job.name = "a" ∧ done job) ∧
    (outcome (run .standard ⟨0, 0⟩ again) s).1 = .ok () ∧
    completedAfter .standard ⟨0, 0⟩ again s done plainJob ∧
    (outcome (run .standard ⟨0, 0⟩ { plainUpdate with retry := false, dryRun := true }) s).2.files.file?
      plainUpdate.recordPlace = s.files.file? plainUpdate.recordPlace := by
  intro start s done again
  obtain ⟨progress, hrun⟩ := outcome_run_plainUpdate
  have hs : s = ⟨plainTree [recordNode ["a"]] [], progress⟩ := congrArg Prod.snd hrun
  obtain ⟨s', hagain⟩ := outcome_run_again progress
  have hnone : start.files.file? plainUpdate.recordPlace = none := by
    rw [show plainUpdate.recordPlace = ["w_verify_tmp", fileName] by decide]
    rfl
  have hhistory : History .standard plainUpdate s done :=
    .run (.start hnone) ⟨0, 0⟩ false false rfl
  have hopen : open_ s.files plainUpdate.workDir = .ok (recordOf ["a"]) := hs ▸ open_recordNode
  obtain ⟨hsound, hcomplete, hdry⟩ := record_sound_complete .standard plainUpdate (by decide)
    (by decide) s done hhistory
  rw [← hs] at hagain
  exact ⟨hhistory, ⟨_, hopen, rfl⟩, hsound _ "a" hopen rfl, congrArg Prod.fst hagain,
    hcomplete ⟨0, 0⟩ true s' hagain plainJob List.mem_cons_self, hdry (by decide) ⟨0, 0⟩ false⟩

end Update

end BlockUpdate
