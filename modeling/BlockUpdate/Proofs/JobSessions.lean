import BlockUpdate.Proofs.CleanStart
import BlockUpdate.Proofs.JsonText
import BlockUpdate.Proofs.PartitionRecords
import BlockUpdate.Proofs.ResumeEquivalence
import BlockUpdate.Standard

/-!
# Jobs that come to their sessions

A job opens its device and reads its members of the package before its script runs, and puts the
device back after it. Here is how the run of a job is put together from the run of its script.

- `Session.outcome_runPackage`: the session of a package is the run of its script.
- `Session.runScript_nothing`, `Session.runScript_of_failed`: scripts of no command and of one that
  fails.
- `Update.runJob_of_ok`, `Update.runJob_of_error`: a job by how its session ended.
- `Update.plainUpdate`: an update with nothing to do, as a sample.
-/

namespace BlockUpdate

open FileTree PartitionRecord

/-- What is read of a package in a directory. -/
theorem Package.read_ofDirectory {t : FileTree} {root : Path} {name : String} {place : Place}
    {data : Bytes} (hroot : t.Leads root.parts place) (hname : PlainName name)
    (hsize : name.utf8ByteSize ≤ maxName) (hvalid : MemberName.validate name = .ok ())
    (hfile : t.get? (place ++ [name]) = some (.file data)) :
    (ofDirectory t root).read name = .ok data := by
  have hnode : t.node (root.join name) = .ok (.file data) := by
    rw [(leads_below_iff.mpr hroot).node hname (Path.parts_join _ hname.noSlash), if_neg (by omega),
      hfile]
  have hread : t.read (root.join name) = .ok data := by
    rw [FileTree.read, hnode]
    rfl
  have hthere : t.isFile (root.join name) = true := by rw [isFile, hnode]
  show ((MemberName.validate name).mapError PackageError.invalidName >>= fun _ => if t.isFile _ = true
    then (t.read _).mapError PackageError.os else _) = _
  rw [hvalid, hthere, hread]
  rfl

namespace FileTree

variable {t : FileTree} {place : Place}

theorem filter_of_absent (h : ∀ node ∈ t.nodes, node.1 ≠ place) :
    t.nodes.filter (fun node => decide (node.1 ≠ place)) = t.nodes :=
  List.filter_eq_self.mpr fun node hnode => decide_eq_true (h node hnode)

/-- A node that is put where nothing is. -/
theorem put_of_absent (h : ∀ node ∈ t.nodes, node.1 ≠ place) (node : Node) :
    t.put place node = ⟨(place, node) :: t.nodes⟩ := by
  rw [put, filter_of_absent h]

/-- A file that is written where nothing is. -/
theorem written_of_absent (h : ∀ node ∈ t.nodes, node.1 ≠ place) (data : Bytes) :
    t.written place data = ⟨(place, .file data) :: t.nodes⟩ := by
  rw [written, ByteArray.empty_append, put_of_absent h, put, List.filter_cons_of_neg (by simp),
    filter_of_absent h]

/-- A directory that is made where nothing is, and removed again. -/
theorem eraseBelow_put (h : ∀ node ∈ t.nodes, ¬ place <+: node.1) :
    (t.put place .directory).eraseBelow place = t := by
  have habsent : ∀ node ∈ t.nodes, node.1 ≠ place := fun node hnode heq =>
    h node hnode (heq ▸ List.prefix_refl _)
  have hkept : t.nodes.filter (fun node => !place.isPrefixOf node.1) = t.nodes :=
    List.filter_eq_self.mpr fun node hnode => by
      simpa [← List.isPrefixOf_iff_prefix] using h node hnode
  have hself : place.isPrefixOf place = true := List.isPrefixOf_iff_prefix.mpr (List.prefix_refl _)
  rw [put_of_absent habsent, eraseBelow, List.filter_cons_of_neg (by simp [hself]), hkept]

end FileTree

namespace Session

open SessionOptions

variable {P : Primitives} {o : SessionOptions} {w : World}

/-- The members of a package are read before the script runs. -/
theorem outcome_runPackage {package : Package} {members : Members} {list : Bytes} {text : String}
    {new : Option Bytes} (hlist : package.read members.transferList = .ok list)
    (htext : Utf8.decode list = .ok text) (hpatch : members.patchData = none)
    (hnew : outcome (readMember? package members.newData) w = (.ok new, w)) :
    outcome (runPackage P o package members) w =
      outcome (runScript P o (Blank.lines text) { newData := new.map NewData.ofBytes }) w := by
  have hpatch' : outcome (readMember? package members.patchData) w = (.ok none, w) := by
    rw [hpatch]
    rfl
  rw [runPackage, outcome_bind_of_ok (lift_eq_ok.mpr ⟨hlist, rfl⟩),
    outcome_bind_of_ok (lift_eq_ok.mpr ⟨htext, rfl⟩), outcome_bind_of_ok hpatch',
    outcome_bind_of_ok hnew]
  rfl

/-- **A script without commands** leaves a clean directory as it is. -/
theorem runScript_nothing {lines : List String} {inputs : ScriptInputs} {place : Place}
    (P : Primitives) (hretry : o.retry = false) (hwrite : o.canWrite = true) (hplain : o.PlainPartition)
    (hclean : o.Clean w.files place) (hfree : ∀ node ∈ w.files.nodes, ¬ o.stashAt place <+: node.1)
    {header : ScriptHeader} {used : Nat} (hheader : ScriptHeader.parse lines = .ok (header, used))
    (hnothing : lines.drop used = []) :
    outcome (runScript P o lines inputs) w = (.ok ⟨0, 0, 0⟩, w) := by
  obtain ⟨w', rfl, hprepare⟩ := prepare_clean inputs hretry hwrite hplain hclean hheader
  rw [hnothing] at hprepare
  -- the stash that it makes is removed at the end, and there is no marker
  have hfreed := Stash.freeAll_eq
    ((hclean.workspace hplain).sited hplain (s := ⟨o.stashDir, true⟩) rfl)
  rw [eraseBelow_put hfree] at hfreed
  have hmarker : outcome (RetryMarker.remove o.markerPath) w.files = (.ok (), w.files) :=
    fileMapError_eq_ok.mpr ((FileM.removeIfPresent_eq_ok hclean.leads hclean.markerPlain
      hplain.markerPath_parts).mpr ⟨hclean.markerSize, by rw [← markerAt, hclean.noMarker]; simp, by
        rw [← markerAt, removed, hclean.noMarker]⟩)
  let w' : World := { w with files := w.files.put (o.stashAt place) .directory }
  refine runScript_eq_ok.mpr ⟨_, w', _, hprepare, rfl, ?_, rfl⟩
  show outcome (cleanUp o ⟨o.stashDir, true⟩) w' = (.ok (), w)
  rw [cleanUp, outcome_bind_of_ok (sessionOnFiles_eq_ok.mpr ⟨_, hfreed, rfl⟩), if_pos hwrite]
  exact sessionOnFiles_eq_ok.mpr ⟨_, hmarker, rfl⟩

/-- **A script whose only command fails** leaves what the command left. -/
theorem runScript_of_failed {lines : List String} {inputs : ScriptInputs} {p : Prepared} {w₁ : World}
    {line : String} {c : Command} {m : Machine} {e : CommandFailure}
    (hprepare : outcome (prepare o lines inputs) w = (.ok p, w₁)) (hcommands : p.commands = [line])
    (hc : instruction? [line] 0 = some c) (hskip : p.skip.skips c = false)
    (hrun : outcome (c.run P) p.machine = (.error e, m)) :
    ∃ e' w', outcome (runScript P o lines inputs) w = (.error e', w') ∧ w'.device = m.device ∧
      w'.files = m.files := by
  let r : Run := { machine := p.machine, progress := w₁.progress }
  obtain ⟨e', r', hcommand⟩ := runCommand_failed (o := o) (r := r) hrun
  have hmachine : r'.machine = m := by
    rcases runCommand_machine P o c r with hleft | ⟨m', hok, -⟩
    · rwa [hcommand, show outcome (c.run P) r.machine = _ from hrun] at hleft
    · cases congrArg Prod.fst (hrun.symm.trans hok)
  have hlines : outcome (runLines P o p.skip 0 p.commands) r = (.error e', r') := by
    rw [hcommands, runLines_singleton, runLine_instruction rfl hc,
      if_neg (by rw [hskip]; exact Bool.false_ne_true), hcommand]
  refine ⟨e', r'.world, ?_, congrArg Machine.device hmachine, congrArg Machine.files hmachine⟩
  rw [runScript, outcome_bind_of_ok hprepare]
  refine outcome_bind_of_error (outcome_bind_of_error ?_ _) _
  rw [outcome_onMachine]
  exact congrArg (fun x : Except TransferError Unit × Run => (x.1.map fun _ => ((), x.2), x.2.world))
    hlines

end Session

namespace Update

variable {P : Primitives} {c : Config} {job : PartitionJob} {s : Site} {place work : Place}

/-- A device that is a file. -/
theorem openDevice_of_file {t : FileTree} {p : Path} {parts : List String} {place : Place}
    {name : String} {image : Bytes} (hleads : t.Leads parts place) (hname : PlainName name)
    (hsize : name.utf8ByteSize ≤ maxName) (hp : p.parts = parts ++ [name])
    (hfile : t.get? (place ++ [name]) = some (.file image)) (canWrite : Bool) :
    openDevice t p canWrite =
      .ok (if canWrite then Device.file image else Device.readOnly image) := by
  have hnode : t.node p = .ok (.file image) := by
    rw [hleads.node hname hp, if_neg (by omega), hfile]
  rw [openDevice, hnode]
  rfl

section Session

variable {d : Device} {w : World}
  (hopen : openDevice s.files job.device (!c.dryRun) = .ok d)
  (hlocate : s.files.locate job.device = .ok place)

include hopen hlocate

/-- A job whose session returns puts its device back, and checks it if it may write. -/
theorem runJob_of_ok {summary : Summary} (hrun : outcome (Session.runPackage P (sessionOptions c job)
    (Package.ofDirectory s.files c.packageDir) (membersOf job))
      { device := d, files := s.files, progress := s.progress } = (.ok summary, w)) :
    outcome (runJob P c job) s = outcome (if !c.dryRun then checkRanges P job w.device else pure ())
      ⟨closeDevice place w.device w.files, w.progress⟩ := by
  rw [runJob, outcome_get_bind, outcome_bind_of_ok (a := d) (t := s) (by
    rw [outcome_lift, hopen]
    rfl)]
  refine outcome_bind_of_ok (a := w.device) ?_ _
  simp only [outcome_onDevice, hrun, hlocate]
  rfl

/-- A job whose session fails puts its device back too. -/
theorem runJob_of_error {e : TransferError} (hrun : outcome (Session.runPackage P (sessionOptions c job)
    (Package.ofDirectory s.files c.packageDir) (membersOf job))
      { device := d, files := s.files, progress := s.progress } = (.error e, w)) :
    outcome (runJob P c job) s =
      (.error (.session e), ⟨closeDevice place w.device w.files, w.progress⟩) := by
  rw [runJob, outcome_get_bind, outcome_bind_of_ok (a := d) (t := s) (by
    rw [outcome_lift, hopen]
    rfl)]
  refine outcome_bind_of_error ?_ _
  simp only [outcome_onDevice, hrun, hlocate]
  rfl

end Session

/-- **A job without commands** does nothing in a clean directory. What its device holds is checked. -/
theorem runJob_nothing {d : Device} {list : Bytes} {text : String} {header : ScriptHeader} {used : Nat}
    (hretry : c.retry = false) (hwrite : c.dryRun = false)
    (hopen : openDevice s.files job.device true = .ok d)
    (hlocate : s.files.locate job.device = .ok place)
    (hlist : (Package.ofDirectory s.files c.packageDir).read job.transferList = .ok list)
    (htext : Utf8.decode list = .ok text) (hpatch : job.patchData = none) (hnew : job.newData = none)
    (hheader : ScriptHeader.parse (Blank.lines text) = .ok (header, used))
    (hnothing : (Blank.lines text).drop used = []) (hplain : (sessionOptions c job).PlainPartition)
    (hclean : (sessionOptions c job).Clean s.files work)
    (hfree : ∀ node ∈ s.files.nodes, ¬ (sessionOptions c job).stashAt work <+: node.1) :
    outcome (runJob P c job) s =
      outcome (checkRanges P job d) { s with files := closeDevice place d s.files } := by
  have hcanWrite : (sessionOptions c job).canWrite = true := by rw [sessionOptions, hwrite]; rfl
  have hnone : (membersOf job).newData = none := hnew
  let w : World := { device := d, files := s.files, progress := s.progress }
  have hrun : outcome (Session.runPackage P (sessionOptions c job)
      (Package.ofDirectory s.files c.packageDir) (membersOf job)) w = (.ok ⟨0, 0, 0⟩, w) := by
    rw [Session.outcome_runPackage hlist htext hpatch (by rw [hnone]; rfl)]
    exact Session.runScript_nothing P hretry hcanWrite hplain hclean hfree hheader hnothing
  rw [runJob_of_ok (by rw [hwrite]; exact hopen) hlocate hrun, hwrite]
  rfl

/-! ## An update with nothing to do -/

/-- A partition with nothing to do. -/
def plainJob : PartitionJob := { name := "a", device := Path.ofText "d", transferList := "l" }

/-- An update of this partition. -/
def plainUpdate : Config where
  workDir := Path.ofText "w_verify_tmp"
  packageDir := Path.ofText "p"
  partitions := [plainJob]

/-- Members of its package. -/
def inPackage (members : List (String × Bytes)) : List (Place × Node) :=
  members.map fun member => (["p", member.1], .file member.2)

/-- Its files, where the work directory is not empty and the package has more members. -/
def plainTree (others : List (Place × Node)) (more : List (String × Bytes)) : FileTree :=
  ⟨others ++ (["d"], .file ByteArray.empty) :: (["w_verify_tmp"], .directory) ::
    (["p"], .directory) :: (["p", "l"], .file (Bytes.ofText "4\n0\n0\n0\n")) ::
      inPackage more⟩

/-- Nothing but what is directly in the work directory. -/
def InWork (others : List (Place × Node)) : Prop :=
  ∀ node ∈ others, ∃ name, node.1 = ["w_verify_tmp", name]

theorem inWork_nil : InWork [] := fun _ h => absurd h List.not_mem_nil

theorem inWork_cons {name : String} {node : Node} {others : List (Place × Node)}
    (h : InWork others) : InWork ((["w_verify_tmp", name], node) :: others) := by
  rintro entry (_ | ⟨_, hentry⟩)
  · exact ⟨name, rfl⟩
  · exact h entry hentry

theorem mem_inPackage {members : List (String × Bytes)} {node : Place × Node}
    (h : node ∈ inPackage members) : ∃ name, node.1 = ["p", name] := by
  obtain ⟨member, -, rfl⟩ := List.mem_map.mp h
  exact ⟨member.1, rfl⟩

theorem plainName_device : PlainName "d" := ⟨by decide, by decide, by decide, by decide, by decide⟩

theorem plainName_list : PlainName "l" := ⟨by decide, by decide, by decide, by decide, by decide⟩

theorem leads_top (t : FileTree) : t.Leads [] [] := ⟨rfl, rfl, rfl⟩

theorem locate_device (t : FileTree) : t.locate plainJob.device = .ok ["d"] :=
  (leads_top t).locate_of_le plainName_device (by decide) (by decide)

section Others

variable {others : List (Place × Node)} (more : List (String × Bytes))

/-- What is in the work directory is among the others. -/
theorem get?_plainTree_inWork (name : String) :
    (plainTree [] more).get? ["w_verify_tmp", name] = none := by
  have hmore : (inPackage more).lookup ["w_verify_tmp", name] = none := by
    refine List.lookup_eq_none_iff.mpr fun node hnode => ?_
    obtain ⟨member, hmember⟩ := mem_inPackage hnode
    simp [hmember]
  rw [get?, if_neg (List.cons_ne_nil _ _)]
  exact hmore

variable (h : InWork others)

include h

theorem get?_plainTree {q : Place} (hq : ∀ name, q ≠ ["w_verify_tmp", name]) :
    (plainTree others more).get? q = (plainTree [] more).get? q := by
  have hnone : others.lookup q = none := by
    refine List.lookup_eq_none_iff.mpr fun node hnode => ?_
    obtain ⟨name, hname⟩ := h node hnode
    simpa [hname] using hq name
  rw [get?, get?, plainTree, plainTree, List.lookup_append, hnone]
  rfl

theorem leads_work : (plainTree others more).Leads plainUpdate.workDir.parts ["w_verify_tmp"] :=
  ⟨by cbv, rfl, (get?_plainTree more h (by simp)).trans rfl⟩

theorem leads_package : (plainTree others more).Leads plainUpdate.packageDir.parts ["p"] :=
  ⟨by cbv, rfl, (get?_plainTree more h (by simp)).trans rfl⟩

theorem openDevice_plainTree (canWrite : Bool) :
    openDevice (plainTree others more) plainJob.device canWrite =
      .ok (if canWrite then Device.file ByteArray.empty else Device.readOnly ByteArray.empty) :=
  openDevice_of_file (leads_top _) plainName_device (by decide) (by decide)
    ((get?_plainTree more h (by simp)).trans rfl) canWrite

/-- What is read of the package. -/
theorem read_plainTree {name : String} {data : Bytes} (hname : PlainName name)
    (hsize : name.utf8ByteSize ≤ maxName) (hvalid : MemberName.validate name = .ok ())
    (hfile : (plainTree [] more).get? ["p", name] = some (.file data)) :
    (Package.ofDirectory (plainTree others more) plainUpdate.packageDir).read name = .ok data :=
  Package.read_ofDirectory (leads_package more h) hname hsize hvalid
    ((get?_plainTree more h (by simp)).trans hfile)

/-- The list of the partition. -/
theorem read_plainTree_list :
    (Package.ofDirectory (plainTree others more) plainUpdate.packageDir).read plainJob.transferList =
      .ok (Bytes.ofText "4\n0\n0\n0\n") :=
  read_plainTree more h plainName_list (by decide) rfl rfl

end Others

/-- The list has no commands. -/
theorem header_plain : ScriptHeader.parse (Blank.lines "4\n0\n0\n0\n") = .ok (⟨4, 0, 0, 0⟩, 4) := by
  rw [show Blank.lines "4\n0\n0\n0\n" = ["4", "0", "0", "0"] by decide]
  cbv

/-- The device is as it was. -/
theorem closeDevice_plainTree (more : List (String × Bytes)) :
    closeDevice ["d"] (Device.file ByteArray.empty) (plainTree [] more) = plainTree [] more := by
  have hrest : ∀ node ∈ (plainTree [] more).nodes.tail, decide (node.1 ≠ ["d"]) = true := by
    rintro node (_ | ⟨_, _ | ⟨_, _ | ⟨_, hnode⟩⟩⟩)
    · rfl
    · rfl
    · rfl
    · obtain ⟨name, hname⟩ := mem_inPackage hnode
      simp [hname]
  have hkept := List.filter_eq_self.mpr hrest
  exact congrArg (fun nodes => (⟨(["d"], .file ByteArray.empty) :: nodes⟩ : FileTree)) hkept

/-- **The partition is done at once**, also if it is one of many. -/
theorem outcome_plainJob (jobs : List PartitionJob) (more : List (String × Bytes))
    (progress : Progress) :
    outcome (runJob .standard { plainUpdate with partitions := jobs } plainJob)
      ⟨plainTree [] more, progress⟩ = (.ok (), ⟨plainTree [] more, progress⟩) := by
  have hclean : (sessionOptions plainUpdate plainJob).Clean (plainTree [] more) ["w_verify_tmp"] :=
    { leads := leads_below_iff.mpr (leads_work more inWork_nil)
      stashPlain := ⟨by decide, by decide, by decide, by decide, by decide⟩
      markerPlain := ⟨by decide, by decide, by decide, by decide, by decide⟩
      stashSize := by decide
      markerSize := by decide
      noStash := get?_plainTree_inWork more _
      noMarker := get?_plainTree_inWork more _ }
  have hplain : (sessionOptions plainUpdate plainJob).PlainPartition := by
    show '/' ∉ "a".toList
    decide
  have hfree : ∀ node ∈ (plainTree [] more).nodes, ¬ ["w_verify_tmp", "a_tmp"] <+: node.1 := by
    rintro node (_ | ⟨_, _ | ⟨_, _ | ⟨_, _ | ⟨_, hnode⟩⟩⟩⟩)
    · decide
    · decide
    · decide
    · decide
    · obtain ⟨name, hname⟩ := mem_inPackage hnode
      simp [hname]
  have hrun := runJob_nothing (P := .standard) (c := { plainUpdate with partitions := jobs })
    (s := ⟨plainTree [] more, progress⟩) rfl rfl (openDevice_plainTree more inWork_nil true)
    (locate_device _) (read_plainTree_list more inWork_nil) (Utf8.decode_ofText _) rfl rfl header_plain
    (by decide) hplain hclean hfree
  rw [hrun]
  show outcome (checkRanges .standard plainJob _) (⟨closeDevice ["d"] _ _, progress⟩ : Site) = _
  rw [if_pos rfl, closeDevice_plainTree]
  rfl

end Update

end BlockUpdate
