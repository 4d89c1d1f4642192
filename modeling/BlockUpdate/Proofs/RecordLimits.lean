import BlockUpdate.Proofs.HandOver
import BlockUpdate.Proofs.UpdateHistory

/-!
# Where the record is not to be trusted

The record is a file like any other. A partition whose name leads out of the work directory may have
its stash where the record is, and a device may be the record itself. An update does not look at
that.

- **`Session.losesRecord_runScript`**, `Update.losesRecord_runJob`: a dry run loses the record if its
  stash is a directory above it.
- **`Command.run_new_short`**: new data that ends within a block is on the device when the command
  fails.
- `Update.forging`: an update with two such partitions. **`Update.record_of_forging`**: its record
  says what is not true, and is lost in a dry run.
-/

namespace BlockUpdate

open FileTree PartitionRecord

/-! ## A lost record -/

namespace FileTree

/-- The file at a place is not there any more. -/
def LosesFile (q : Place) (_ t' : FileTree) : Prop := t'.file? q = none

theorem LosesFile.absorbs {q : Place} {s : FileTree} (t u : FileTree) (h : LosesFile q s t)
    (hkept : KeepsFile True q t u) : LosesFile q s u := hkept.elim (·.trans h) (·.2)

end FileTree

/-- **Opening a stash that is to be wiped** loses the files below it. -/
theorem Stash.losesFile_open {t : FileTree} {base : Path} {place q : Place}
    (hlocate : t.locate base = .ok place) (hdir : t.get? place = some .directory)
    (hbelow : place <+: q) : Leaves (LosesFile q) (open_ base true) t := by
  have hthere : t.isDirectory base = true := Session.isDirectory_iff.mpr ⟨place, hlocate, hdir⟩
  have hwiped : (t.eraseBelow place).file? q = none := by
    rw [file?_eraseBelow, if_pos (List.isPrefixOf_iff_prefix.mpr hbelow)]
  have hremove : outcome (FileM.removeDirectory base) t = (.ok (), t.eraseBelow place) :=
    Session.removeDirectory_eq_ok.mpr ⟨place, hlocate, hdir, rfl⟩
  have hkept : Leaves (KeepsFile True q) (FileM.makeDirectories base >>= fun _ =>
      (pure ⟨base, true⟩ : FileM OsError Stash)) (t.eraseBelow place) :=
    Leaves.bind (FileM.keepsFile_makeDirectories base _) fun _ _ _ _ => Leaves.pure _
  refine Leaves.fileMapError (Leaves.get_bind ?_)
  rw [hthere]
  show Leaves _ (FileM.removeDirectory base >>= _) t
  unfold Leaves
  rw [outcome_bind_of_ok hremove]
  exact LosesFile.absorbs (s := t) _ _ hwiped hkept

namespace Session

variable {P : Primitives} {o : SessionOptions} {lines : List String} {inputs : ScriptInputs}
  {w : World} {dir place work : Place}

/-- The record is not there any more. -/
def LosesRecord (dir : Place) (w w' : World) : Prop := LosesFile (recordAt dir) w.files w'.files

theorem LosesRecord.absorbs {u : World} (v w : World) (h : LosesRecord dir u v)
    (hkept : KeepsRecord True dir v w) : LosesRecord dir u w :=
  LosesFile.absorbs v.files w.files h hkept

/-- The stash of a dry run is a directory above the record. -/
structure ScratchAbove (o : SessionOptions) (dir place : Place) (t : FileTree) : Prop where
  dry : o.canWrite = false
  scratch : t.locate o.scratchDir = .ok place
  directory : t.get? place = some .directory
  above : place <+: recordAt dir

theorem losesFile_openStash {t : FileTree} (h : ScratchAbove o dir place t) :
    Leaves (LosesFile (recordAt dir)) (openStash o) t := by
  rw [openStash, if_neg (by rw [h.dry]; exact Bool.false_ne_true)]
  exact Leaves.bind_of_absorbs (Stash.losesFile_open h.scratch h.directory h.above)
    (fun scratch t₁ _ => keepsFile_copyKept o scratch t₁) LosesFile.absorbs

theorem losesRecord_prepare (hheader : ∃ found, ScriptHeader.parse lines = .ok found)
    (hwork : w.files.Leads o.workDir.parts work) (h : ScratchAbove o dir place w.files) :
    Leaves (LosesRecord dir) (prepare o lines inputs) w := by
  obtain ⟨⟨header, used⟩, hheader⟩ := hheader
  have hmake : outcome (onFiles TransferError.os (FileM.makeDirectories o.workDir)) w = (.ok (), w) :=
    sessionOnFiles_eq_ok.mpr ⟨w.files, FileM.makeDirectories_of_leads hwork, rfl⟩
  have hopen : Leaves (LosesRecord dir) (onFiles TransferError.stash (openStash o)) w :=
    losesFile_openStash h
  unfold Leaves
  rw [prepare, outcome_bind_of_ok (lift_eq_ok.mpr ⟨hheader, rfl⟩), outcome_bind_of_ok hmake]
  exact Leaves.bind_of_absorbs hopen (fun stash w₁ _ => keepsRecord_begin header stash _ inputs w₁)
    LosesRecord.absorbs

/-- **A dry run loses the record below its stash**, if it comes to its stash. -/
theorem losesRecord_runScript (P : Primitives) (hheader : ∃ found, ScriptHeader.parse lines = .ok found)
    (hwork : w.files.Leads o.workDir.parts work) (h : ScratchAbove o dir place w.files) :
    Leaves (LosesRecord dir) (runScript P o lines inputs) w := by
  refine Leaves.bind_of_absorbs (losesRecord_prepare hheader hwork h) (fun p w₁ hprepare => ?_)
    LosesRecord.absorbs
  exact Leaves.bind (keepsRecord_runCommands hprepare) fun _ w₂ _ _ =>
    Leaves.bind (keepsRecord_cleanUp (.inl trivial) w₂) fun _ _ _ _ => Leaves.pure _

end Session

namespace Update

variable {P : Primitives} {c : Config} {job : PartitionJob} {s : Site} {dir place work : Place}

/-- The record is not there any more. -/
def LosesRecord (dir : Place) (s s' : Site) : Prop := LosesFile (recordAt dir) s.files s'.files

theorem LosesRecord.absorbs {u : Site} (v w : Site) (h : LosesRecord dir u v)
    (hkept : KeepsRecord True dir v w) : LosesRecord dir u w :=
  LosesFile.absorbs v.files w.files h hkept

/-- A device that is put back makes no record. -/
theorem losesFile_closeDevice {t t' : FileTree} {q : Place} (h : LosesFile q t t') (d : Device) :
    LosesFile q t (closeDevice place d t') := by
  rw [closeDevice]
  split
  · rename_i data hfile
    refine (file?_put_of_ne ?_ _).trans h
    rintro rfl
    rw [LosesFile, file?_eq_some.mpr hfile] at h
    cases h
  · exact h

/-- **A dry run of a job loses the record**, if its stash is a directory above it. -/
theorem losesRecord_runJob (P : Primitives) {d : Device} {list : Bytes} {text : String}
    (hopen : openDevice s.files job.device (!c.dryRun) = .ok d)
    (hlist : (Package.ofDirectory s.files c.packageDir).read job.transferList = .ok list)
    (htext : Utf8.decode list = .ok text) (hpatch : job.patchData = none) (hnew : job.newData = none)
    (hheader : ∃ found, ScriptHeader.parse (Blank.lines text) = .ok found)
    (hwork : s.files.Leads c.workDir.parts work)
    (h : Session.ScratchAbove (sessionOptions c job) dir place s.files) :
    Leaves (LosesRecord dir) (runJob P c job) s := by
  obtain ⟨node, hnode, -⟩ := except_bind_eq_ok.mp hopen
  obtain ⟨q, hlocate, -⟩ := except_bind_eq_ok.mp hnode
  let w : World := { device := d, files := s.files, progress := s.progress }
  have hnone : outcome (Session.readMember? (Package.ofDirectory s.files c.packageDir)
      (membersOf job).newData) w = (.ok none, w) := by
    rw [membersOf, hnew]
    rfl
  have hlost : Leaves (Session.LosesRecord dir) (Session.runPackage P (sessionOptions c job)
      (Package.ofDirectory s.files c.packageDir) (membersOf job)) w := by
    rw [Leaves, Session.outcome_runPackage hlist htext hpatch hnone]
    exact Session.losesRecord_runScript P hheader hwork h
  have hdry : (!c.dryRun) = false := h.dry
  rcases hrun : outcome (Session.runPackage P (sessionOptions c job)
    (Package.ofDirectory s.files c.packageDir) (membersOf job))
      { device := d, files := s.files, progress := s.progress } with ⟨e | summary, w⟩ <;>
    rw [Leaves, hrun] at hlost
  · rw [Leaves, runJob_of_error hopen hlocate hrun]
    exact losesFile_closeDevice hlost w.device
  · rw [Leaves, runJob_of_ok hopen hlocate hrun, hdry]
    exact losesFile_closeDevice hlost w.device

/-- Nothing is recorded when a job was only checked. -/
theorem losesRecord_stepJob {now : Timestamp} {record : PartitionRecord} (hdry : c.dryRun = true)
    (hskip : (c.retry && record.isUpdated job.name) = false)
    (hjob : Leaves (LosesRecord dir) (runJob P c job) (atJob job s)) :
    Leaves (LosesRecord dir) (stepJob P now c job record) s := by
  rw [Leaves, outcome_stepJob hskip]
  rcases hrun : outcome (runJob P c job) (atJob job s) with ⟨e | ⟨⟩, s'⟩ <;> rw [Leaves, hrun] at hjob
  · exact hjob
  · simp only [if_pos hdry]
    exact hjob

end Update

/-! ## A device that is written over -/

/-- Data that fits one read comes in one. -/
theorem NewData.ofBytes_eq {data : Bytes} (hpos : 0 < data.size) (hsize : data.size ≤ pullSize) :
    ofBytes data = ⟨[.bytes data], none⟩ := by
  have hone : (data.size + pullSize - 1) / pullSize = 1 := by
    rw [Nat.div_eq_iff (by decide)]
    omega
  have hwhole : data.extract (0 * pullSize) ((0 + 1) * pullSize) = data := by
    rw [Nat.zero_mul, Nat.zero_add, Nat.one_mul]
    exact Bytes.takeFirst_of_size_le hsize
  rw [ofBytes, pieces, hone]
  simp only [List.range_one, List.map_cons, List.map_nil, hwhole]

/-- The first block. -/
def firstBlock : BlockSet := ⟨[⟨0, 1⟩], 1⟩

theorem valid_firstBlock : HandOver.Valid ⟨firstBlock, false⟩ :=
  .of_parse (by rfl : BlockSet.parse "2,0,1" = _) fun _ => by decide

/-- **New data that ends within a block** is written all the same. -/
theorem Command.run_new_short {P : Primitives} {c : Command} {m : Machine} {data : Bytes}
    (hverb : c.verb = .new) (hset : c.blockSet 0 = .ok firstBlock) (hwrite : m.canWrite = true)
    (hfeed : m.newData = some (Feed.start (NewData.ofBytes data))) (hd : m.device.Reliable)
    (hpos : 0 < data.size) (hshort : data.size < blockSize) (hover : m.device.image.size ≤ data.size) :
    ∃ m', outcome (c.run P) m = (.error (.feed (.starved data.size blockSize)), m') ∧
      m'.device.image = data ∧ m'.files = m.files := by
  have hleft : (Feed.start (NewData.ofBytes data)).left? = some data := by
    rw [Feed.left?_start, NewData.ofBytes_eq hpos (hshort.le.trans (by decide)), NewData.data?,
      NewData.dataOf?, if_neg (by omega)]
    simp [NewData.dataOf?]
  obtain ⟨s', hfill, -, htook⟩ := Feed.fill_fills valid_firstBlock.set.sound
    valid_firstBlock.addressable hleft hd
  have hanswer : HandOver.answer ⟨firstBlock, false⟩ (0 + data.size) =
      .error (.starved data.size blockSize) := by
    rw [HandOver.answer, Nat.zero_add]
    exact if_neg (Nat.not_le.mpr hshort)
  rw [ByteArray.size_empty, hanswer] at hfill
  have himage : s'.writing.device.image = data := by
    have hlaid : HandOver.filled ⟨firstBlock, false⟩ m.device.image data =
        m.device.image.after ⟨0, data.takeFirst blockSize⟩ := rfl
    have hall : data.takeFirst blockSize = data := Bytes.takeFirst_of_size_le hshort.le
    have htaken : HandOver.size ⟨firstBlock, false⟩ - ByteArray.empty.size = blockSize := rfl
    rw [htook.image_filled, ByteArray.empty_append, htaken, hall, hlaid, hall, Bytes.after,
      if_neg hpos.ne', Bytes.writeAt_zero hover]
  have hrun : outcome (fillFromNewData firstBlock) m = (.error (.feed (.starved data.size blockSize)),
      { m with device := s'.writing.device, newData := some s'.feed }) := by
    have hfill' : outcome Feed.fill (Feed.feeding (Feed.start (NewData.ofBytes data),
        BlockWriter.new firstBlock false) m.device) = _ := hfill
    rw [outcome_fillFromNewData hwrite hfeed, hfill']
    rfl
  refine ⟨{ m with device := s'.writing.device, newData := some s'.feed }, ?_, himage, rfl⟩
  rw [run, hverb]
  show outcome c.writeNewData m = _
  have hfirst : outcome (Machine.ofCommand (c.blockSet 0)) m = (.ok firstBlock, m) := by
    rw [hset]
    rfl
  rw [writeNewData, outcome_bind_of_ok hfirst, outcome_bind_of_error hrun]

/-! ## An update of the record itself -/

namespace Update

/-- A partition whose device is the record of the update. -/
def forgingJob : PartitionJob where
  name := "b"
  device := Path.ofText "w_verify_tmp/partition_record.json"
  transferList := "f"
  newData := some "n"

/-- A partition whose dry run has the work directory as its stash. -/
def wipingJob : PartitionJob := { plainJob with name := "../w" }

/-- An update of the plain partition and these two, in this order. -/
def forging : Config := { plainUpdate with partitions := [plainJob, forgingJob, wipingJob] }

/-- What it has in its package. The new data for the record is another record. -/
def forgingMembers : List (String × Bytes) :=
  [("f", Bytes.ofText "4\n1\n0\n0\nnew 2,0,1\n"), ("n", encode (recordOf ["a", "b"]).entries)]

/-- The record, and what the second partition leaves. -/
def forgedNodes : List (Place × Node) :=
  [recordNode ["a", "b"], (["w_verify_tmp", "b_tmp"], .directory)]

theorem recordPlace_forging : forging.recordPlace = ["w_verify_tmp", "partition_record.json"] := by
  decide

theorem inWork_forgedNodes : InWork forgedNodes := inWork_cons (inWork_cons inWork_nil)

/-- What is read of the record that the second partition leaves. -/
theorem open_forgedNodes :
    open_ (plainTree forgedNodes forgingMembers) plainUpdate.workDir = .ok (recordOf ["a", "b"]) :=
  open_plainTree inWork_forgedNodes rfl (by decide +kernel)

/-- The first partition of this update is as in the plain one. -/
theorem outcome_beforeJobs_forging (progress : Progress) :
    outcome (beforeJobs .standard forging) ⟨plainTree [] forgingMembers, progress⟩ =
      (.ok (none, recordOf []), ⟨plainTree [] forgingMembers, progress.announce⟩) :=
  outcome_beforeJobs_plainUpdate _ forgingMembers progress

theorem stepJob_forging (progress : Progress) :
    outcome (stepJob .standard ⟨0, 0⟩ forging plainJob (recordOf []))
      ⟨plainTree [] forgingMembers, progress⟩ = (.ok (recordOf ["a"]),
        ⟨plainTree [recordNode ["a"]] forgingMembers, progress.setProportion plainJob.proportion⟩) :=
  stepJob_plainJob _ forgingMembers progress

/-- The stash of a dry run of the last partition is the work directory. -/
theorem leads_scratch {others : List (Place × Node)} (h : InWork others)
    (more : List (String × Bytes)) : (plainTree others more).Leads
      (sessionOptions forging wipingJob).scratchDir.parts ["w_verify_tmp"] := by
  have hparts : (sessionOptions forging wipingJob).scratchDir.parts =
      ["w_verify_tmp", "..", "w_verify_tmp"] := by decide
  rw [hparts]
  refine (⟨by cbv, rfl, rfl⟩ : (plainTree [] more).Leads _ _).mono fun q hq => ?_
  rwa [get?_plainTree more h]
  rintro name rfl
  rw [get?_plainTree_inWork] at hq
  cases hq

theorem header_forging :
    ScriptHeader.parse (Blank.lines "4\n1\n0\n0\nnew 2,0,1\n") = .ok (⟨4, 1, 0, 0⟩, 4) := by
  rw [show Blank.lines "4\n1\n0\n0\nnew 2,0,1\n" = ["4", "1", "0", "0", "new 2,0,1"] by decide]
  cbv

/-- Its only command. -/
def writeRecord : Command := ⟨.new, ["2,0,1"], "new 2,0,1", 0⟩

theorem parse_writeRecord : Session.instruction? ["new 2,0,1"] 0 = some writeRecord := by decide

/-- The session of the second partition writes a record over the record, and fails. -/
theorem outcome_forgingSession (progress : Progress) :
    ∃ e w, outcome (Session.runPackage .standard (sessionOptions forging forgingJob)
        (Package.ofDirectory (plainTree [recordNode ["a"]] forgingMembers) forging.packageDir)
        (membersOf forgingJob))
          ⟨Device.file (encode (recordOf ["a"]).entries), plainTree [recordNode ["a"]] forgingMembers, progress⟩ =
            (.error e, w) ∧
      w.device.image = encode (recordOf ["a", "b"]).entries ∧
      w.files = plainTree [(["w_verify_tmp", "b_tmp"], .directory), recordNode ["a"]] forgingMembers := by
  have hothers := inWork_recordNode ["a"]
  let o := sessionOptions forging forgingJob
  let data := encode (recordOf ["a", "b"]).entries
  let w : World :=
    ⟨Device.file (encode (recordOf ["a"]).entries), plainTree [recordNode ["a"]] forgingMembers, progress⟩
  have hlist : (Package.ofDirectory w.files forging.packageDir).read "f" =
      .ok (Bytes.ofText "4\n1\n0\n0\nnew 2,0,1\n") :=
    read_plainTree forgingMembers hothers ⟨by decide, by decide, by decide, by decide, by decide⟩
      (by decide) rfl rfl
  have hnew : (Package.ofDirectory w.files forging.packageDir).read "n" = .ok data :=
    read_plainTree forgingMembers hothers ⟨by decide, by decide, by decide, by decide, by decide⟩ (by decide)
      rfl rfl
  have hread : outcome (Session.readMember? (Package.ofDirectory w.files forging.packageDir)
      (membersOf forgingJob).newData) w = (.ok (some data), w) :=
    (outcome_bind_of_ok (lift_eq_ok.mpr ⟨hnew, rfl⟩) _).trans rfl
  have hplain : o.PlainPartition := by
    show '/' ∉ "b".toList
    decide
  have hclean : o.Clean w.files ["w_verify_tmp"] :=
    { leads := leads_below_iff.mpr (leads_work forgingMembers hothers)
      stashPlain := ⟨by decide, by decide, by decide, by decide, by decide⟩
      markerPlain := ⟨by decide, by decide, by decide, by decide, by decide⟩
      stashSize := by decide
      markerSize := by decide
      noStash := rfl
      noMarker := rfl }
  obtain ⟨w₁, rfl, hprepare⟩ := Session.prepare_clean
    { newData := some (NewData.ofBytes data) } rfl rfl hplain hclean header_forging
  let start := Session.blankMachine o ⟨4, 1, 0, 0⟩ true { newData := some (NewData.ofBytes data) }
    { w with files := w.files.put (o.stashAt ["w_verify_tmp"]) .directory }
  have hsizes : 0 < data.size ∧ data.size < blockSize ∧
      (encode (recordOf ["a"]).entries).size ≤ data.size := by
    decide +kernel
  obtain ⟨m, hcommand, himage, hfiles⟩ := Command.run_new_short (P := .standard) (c := writeRecord)
    (m := start) rfl rfl rfl rfl ⟨fun _ => rfl, fun _ => rfl⟩ hsizes.1 hsizes.2.1 hsizes.2.2
  have hcommands : (Blank.lines "4\n1\n0\n0\nnew 2,0,1\n").drop 4 = ["new 2,0,1"] := by decide
  obtain ⟨e, w', hrun, hdevice, hfiles'⟩ :=
    Session.runScript_of_failed hprepare hcommands parse_writeRecord rfl hcommand
  refine ⟨e, w', ?_, by rw [hdevice, himage], by rw [hfiles', hfiles]; rfl⟩
  rw [Session.outcome_runPackage hlist (Utf8.decode_ofText _) rfl hread]
  exact hrun

/-- Its device can be opened once the first partition is recorded. -/
theorem openDevice_record :
    openDevice (plainTree [recordNode ["a"]] forgingMembers) forgingJob.device true =
      .ok (Device.file (encode (recordOf ["a"]).entries)) :=
  openDevice_of_file (leads_work forgingMembers (inWork_recordNode ["a"])) plainName_fileName fileName_size
    (by decide) rfl true

theorem locate_record (others : List (Place × Node)) (h : InWork others) :
    (plainTree others forgingMembers).locate forgingJob.device = .ok ["w_verify_tmp", fileName] :=
  (leads_work forgingMembers h).locate_of_le plainName_fileName (by decide) fileName_size

/-- **The second partition fails**, and the record says that it is updated. -/
theorem outcome_forgingJob (progress : Progress) :
    ∃ e progress', outcome (runJob .standard forging forgingJob)
      ⟨plainTree [recordNode ["a"]] forgingMembers, progress⟩ =
        (.error e, ⟨plainTree forgedNodes forgingMembers, progress'⟩) := by
  obtain ⟨e, w, hrun, himage, hfiles⟩ := outcome_forgingSession progress
  refine ⟨.session e, w.progress, ?_⟩
  rw [runJob_of_error (s := ⟨plainTree [recordNode ["a"]] forgingMembers, progress⟩) openDevice_record
    (locate_record _ (inWork_recordNode ["a"])) hrun, hfiles, closeDevice]
  show (_, (⟨FileTree.put _ _ (.file w.device.image), _⟩ : Site)) = _
  rw [himage]
  rfl

/-- The site when the first run stops. -/
theorem outcome_run_forging :
    ∃ e progress, outcome (run .standard ⟨0, 0⟩ forging) ⟨plainTree [] forgingMembers, {}⟩ =
      (.error e, ⟨plainTree forgedNodes forgingMembers, progress⟩) := by
  let progress := ({} : Progress).announce.setProportion plainJob.proportion
  obtain ⟨e, progress', hjob⟩ := outcome_forgingJob (progress.setProportion forgingJob.proportion)
  have hstep : outcome (stepJob .standard ⟨0, 0⟩ forging forgingJob (recordOf ["a"]))
      ⟨plainTree [recordNode ["a"]] forgingMembers, progress⟩ =
        (.error (.job "b" e), ⟨plainTree forgedNodes forgingMembers, progress'⟩) := by
    rw [outcome_stepJob rfl, show outcome (runJob .standard forging forgingJob)
      (atJob forgingJob ⟨plainTree [recordNode ["a"]] forgingMembers, progress⟩) = _ from hjob]
    rfl
  refine ⟨.job "b" e, progress', ?_⟩
  rw [run_eq_phases .standard ⟨0, 0⟩ (List.cons_ne_nil _ _),
    outcome_bind_of_ok (outcome_beforeJobs_forging {})]
  refine outcome_bind_of_error ?_ _
  show outcome (stepJob .standard ⟨0, 0⟩ forging plainJob (recordOf []) >>= fun r =>
    stepJob .standard ⟨0, 0⟩ forging forgingJob r >>= _) _ = _
  rw [outcome_bind_of_ok (stepJob_forging _), outcome_bind_of_error hstep]

/-- The second partition was not completed. -/
theorem not_completes_forgingJob :
    ¬ Completes .standard ⟨0, 0⟩ forging ⟨plainTree [] forgingMembers, {}⟩ forgingJob := by
  rintro ⟨before, rest, record, s, hjobs, ⟨manifest, found, s₀, hbefore, hreached⟩, -, -, d, summary, w,
    hopen, hrun, -⟩
  -- just the first partition comes before it
  have hbefore' : before = [plainJob] := by
    have hnames := congrArg (List.map PartitionJob.name) hjobs
    rw [List.map_append, List.map_cons] at hnames
    change ["a", "b", "../w"] = before.map PartitionJob.name ++ "b" :: rest.map _ at hnames
    match before, hnames with
    | [], h => simp at h
    | [x], _ => exact congrArg (fun job => [job]) (List.cons.inj hjobs).1.symm
    | [x, y], h => simp at h
    | x :: y :: z :: more, h => simp at h
  subst hbefore'
  obtain ⟨⟨rfl, rfl⟩, rfl⟩ : (none = manifest ∧ recordOf [] = found) ∧ _ = s₀ := by
    simpa using (outcome_beforeJobs_forging {}).symm.trans hbefore
  rw [runJobs, outcome_bind_of_ok (stepJob_forging _)] at hreached
  obtain ⟨-, rfl⟩ : recordOf ["a"] = record ∧ _ = s := by simpa [runJobs] using hreached
  obtain rfl := Except.ok.inj (openDevice_record.symm.trans hopen)
  obtain ⟨e, w', hfailed, -⟩ := outcome_forgingSession
    ((({} : Progress).announce.setProportion plainJob.proportion).setProportion forgingJob.proportion)
  cases congrArg Prod.fst (hfailed.symm.trans hrun)

/-- The same update that goes on and only checks. -/
def rechecking : Config := { forging with retry := true, dryRun := true }

/-- **The check of the last partition** loses the record. -/
theorem losesRecord_wipingJob (progress : Progress) :
    Leaves (LosesRecord ["w_verify_tmp"]) (runJob .standard rechecking wipingJob)
      ⟨plainTree forgedNodes forgingMembers, progress⟩ := by
  have hscratch := leads_scratch inWork_forgedNodes forgingMembers
  have habove : Session.ScratchAbove (sessionOptions rechecking wipingJob) ["w_verify_tmp"]
      ["w_verify_tmp"] (plainTree forgedNodes forgingMembers) :=
    { dry := rfl
      scratch := hscratch.locate_self (by decide)
      directory := hscratch.directory
      above := ⟨[fileName], rfl⟩ }
  exact losesRecord_runJob .standard (s := ⟨plainTree forgedNodes forgingMembers, progress⟩)
    (openDevice_plainTree forgingMembers inWork_forgedNodes false)
    (read_plainTree_list forgingMembers inWork_forgedNodes) (Utf8.decode_ofText _) rfl rfl
    ⟨_, header_plain⟩ (leads_work forgingMembers inWork_forgedNodes) habove

theorem losesRecord_run_rechecking (progress : Progress) :
    Leaves (LosesRecord ["w_verify_tmp"]) (run .standard ⟨0, 0⟩ rechecking)
      ⟨plainTree forgedNodes forgingMembers, progress⟩ := by
  have hbefore : outcome (beforeJobs .standard rechecking)
      ⟨plainTree forgedNodes forgingMembers, progress⟩ = _ :=
    outcome_beforeJobs_kept inWork_forgedNodes open_forgedNodes forging.partitions true progress
  -- the first two partitions are passed over
  have hskips : ∀ (job : PartitionJob) (progress : Progress),
      (recordOf ["a", "b"]).isUpdated job.name = true →
        ∃ progress', outcome (stepJob .standard ⟨0, 0⟩ rechecking job (recordOf ["a", "b"]))
          ⟨plainTree forgedNodes forgingMembers, progress⟩ =
            (.ok (recordOf ["a", "b"]), ⟨plainTree forgedNodes forgingMembers, progress'⟩) :=
    fun _ _ hupdated => stepJob_skips .standard ⟨0, 0⟩ _ hupdated
  obtain ⟨progress₁, hfirst⟩ := hskips plainJob progress.announce rfl
  obtain ⟨progress₂, hsecond⟩ := hskips forgingJob progress₁ rfl
  have hthird : Leaves (LosesRecord ["w_verify_tmp"])
      (stepJob .standard ⟨0, 0⟩ rechecking wipingJob (recordOf ["a", "b"]))
        ⟨plainTree forgedNodes forgingMembers, progress₂⟩ :=
    losesRecord_stepJob rfl rfl (losesRecord_wipingJob (progress₂.setProportion wipingJob.proportion))
  have hjobs : Leaves (LosesRecord ["w_verify_tmp"])
      (runJobs .standard ⟨0, 0⟩ rechecking [plainJob, forgingJob, wipingJob] (recordOf ["a", "b"]))
        ⟨plainTree forgedNodes forgingMembers, progress.announce⟩ := by
    rw [Leaves, runJobs, outcome_bind_of_ok hfirst, runJobs, outcome_bind_of_ok hsecond, runJobs]
    exact Leaves.bind_of_absorbs hthird (fun _ _ _ => Leaves.pure _) LosesRecord.absorbs
  rw [Leaves, run_eq_phases .standard ⟨0, 0⟩ (List.cons_ne_nil _ _),
    outcome_bind_of_ok hbefore]
  exact Leaves.bind_of_absorbs hjobs (fun _ s _ => keepsRecord_afterJobs none _ s) LosesRecord.absorbs

/-- **A record that is wrong, and one that is lost.** The second partition of an update writes over
the record, and fails; after that the record says that it is updated. When the update then goes on
and only checks, the check of the third partition removes the record. -/
theorem record_of_forging :
    (forging.partitions.map (·.name)).Nodup ∧
    let start : Site := ⟨plainTree [] forgingMembers, {}⟩
    let s := (outcome (run .standard ⟨0, 0⟩ forging) start).2
    let done := completedAfter .standard ⟨0, 0⟩ forging start fun _ => False
    start.files.file? forging.recordPlace = none ∧ History .standard forging s done ∧
    (∃ record, open_ s.files forging.workDir = .ok record ∧ record.isUpdated "b" = true) ∧
    (∀ job ∈ forging.partitions, job.name = "b" → ¬ done job) ∧
    (outcome (run .standard ⟨0, 0⟩ { forging with retry := true, dryRun := true }) s).2.files.file?
      forging.recordPlace ≠ s.files.file? forging.recordPlace := by
  refine ⟨by decide, ?_⟩
  obtain ⟨e, progress, hrun⟩ := outcome_run_forging
  intro start s done
  have hs : s = ⟨plainTree forgedNodes forgingMembers, progress⟩ := congrArg Prod.snd hrun
  have hnone : start.files.file? forging.recordPlace = none := by
    rw [recordPlace_forging]
    rfl
  have hlost := losesRecord_run_rechecking progress
  rw [hs]
  refine ⟨hnone, hs ▸ .run (.start hnone) ⟨0, 0⟩ false false rfl, ⟨_, open_forgedNodes, by decide⟩,
    fun job hjob hname => ?_, ?_⟩
  · obtain rfl : job = forgingJob := by
      simp only [forging, List.mem_cons, List.not_mem_nil, or_false] at hjob
      rcases hjob with rfl | rfl | rfl
      · exact absurd hname (by decide)
      · rfl
      · exact absurd hname (by decide)
    rintro (hcompletes | ⟨hnever, -⟩)
    · exact not_completes_forgingJob hcompletes
    · exact hnever
  · have hthere : (plainTree forgedNodes forgingMembers).file? (recordAt ["w_verify_tmp"]) =
        some (encode (recordOf ["a", "b"]).entries) := rfl
    rw [recordPlace_forging]
    show _ ≠ (plainTree forgedNodes forgingMembers).file? (recordAt ["w_verify_tmp"])
    rw [hthere]
    exact fun heq => nomatch hlost.symm.trans heq

end Update

end BlockUpdate
