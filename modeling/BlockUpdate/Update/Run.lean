import BlockUpdate.BlockIo
import BlockUpdate.Config
import BlockUpdate.Package.Verify
import BlockUpdate.Script.Record
import BlockUpdate.Script.Session
import BlockUpdate.Update.Error

/-!
# Running an update

The jobs of a configuration run in order, and the first that fails ends the update. What was done
until then stays, and the record says which partitions were finished, so that a later run with
`retry` passes over these.

- `Update.run`: runs a configuration.
- `Update.runJob`: updates one partition.
-/

namespace BlockUpdate

/-- What an update works on. The devices are files of the tree. -/
structure Site where
  files : FileTree
  progress : Progress := {}

/-- Computations of a whole update. -/
abbrev UpdateM := ExceptT UpdateError (StateM Site)

/-- Computations of a job. -/
abbrev JobM := ExceptT JobError (StateM Site)

namespace Update

/-! ## Devices -/

/-- A directory in the place of a device. It can be opened for reading, but not read. -/
def directoryDevice : Device :=
  { image := ByteArray.empty
    faults :=
      { Faults.onWrite Errno.badDescriptor with read := fun _ => some Errno.isDirectory } }

/-- Opens a device. -/
def openDevice (t : FileTree) (p : Path) (canWrite : Bool) : Except OsError Device := do
  match ← t.node p with
  | .file image => return if canWrite then Device.file image else Device.readOnly image
  | .directory => if canWrite then throw (.errno Errno.isDirectory) else return directoryDevice

/-- Puts the contents of a device into its file, unless that was removed meanwhile. -/
def closeDevice (place : Place) (d : Device) (t : FileTree) : FileTree :=
  match t.get? place with
  | some (.file _) => t.put place (.file d.image)
  | _ => t

/-! ## Jobs -/

/-- Reads something. -/
def lift {ε ε' α : Type} (f : ε → ε') (x : Except ε α) : ExceptT ε' (StateM Site) α :=
  ExceptT.mk (fun s => (x.mapError f, s))

/-- Runs a computation on the files. -/
def onFiles {ε ε' α : Type} (f : ε → ε') (x : FileM ε α) : ExceptT ε' (StateM Site) α :=
  ExceptT.mk (fun s =>
    let (result, files) := x.run s.files
    (result.mapError f, { s with files }))

/-- Moves the progress bar. -/
def onProgress {ε : Type} (f : Progress → Progress) : ExceptT ε (StateM Site) Unit :=
  modify fun s => { s with progress := f s.progress }

/-- Runs a session on a device and gives the device as it is afterwards. -/
def onDevice (p : Path) (d : Device) (x : SessionM Summary) : JobM Device :=
  ExceptT.mk (fun s =>
    let (result, w) := x.run { device := d, files := s.files, progress := s.progress }
    let files := match s.files.locate p with
      | .ok place => closeDevice place w.device w.files
      | .error _ => w.files
    ((result.map fun _ => w.device).mapError .session, { files, progress := w.progress }))

/-- The session of a job. -/
def sessionOptions (c : Config) (job : PartitionJob) : SessionOptions where
  partition := job.name
  workDir := c.workDir
  canWrite := !c.dryRun
  retry := c.retry
  allowFileErase := c.allowFileErase

/-- The members of the package that belong to a job. -/
def membersOf (job : PartitionJob) : Session.Members :=
  ⟨job.transferList, job.newData, job.patchData⟩

/-- Checks the final digest of a job, if it has one. -/
def checkRanges (P : Primitives) (job : PartitionJob) (d : Device) : JobM Unit := do
  if let (some ranges, some sha256) := (job.verifyRanges, job.verifySha256) then
    if !(← lift .ranges (Checksum.verifyRanges P d ranges sha256)) then
      throw (.mismatch job.name ranges sha256)

/-- Updates one partition. -/
def runJob (P : Primitives) (c : Config) (job : PartitionJob) : JobM Unit := do
  let files := (← get).files
  let d ← lift (.opening job.device) (openDevice files job.device !c.dryRun)
  let package := Package.ofDirectory files c.packageDir
  let d ← onDevice job.device d
    (Session.runPackage P (sessionOptions c job) package (membersOf job))
  if !c.dryRun then
    checkRanges P job d

/-! ## Manifests -/

/-- Reads the signed manifest, if there is one. -/
def loadManifest (P : Primitives) (c : Config) (t : FileTree) :
    Except UpdateError (Option Manifest) :=
  match c.manifestFile with
  | none => return none
  | some name => do
    let some key := c.publicKey | throw (.noPublicKey name)
    let key ← (Ed25519.publicKeyOfHex key).mapError fun e => .package (.signature e)
    let data ← ((Package.ofDirectory t c.packageDir).read name).mapError .package
    let (manifest, _) ← (Manifest.parse P key.oracle data).mapError (.manifest name)
    return some manifest

/-- The device of the last job for a partition. -/
def deviceOf? (c : Config) (partition : String) : Option Path :=
  (c.partitions.reverse.find? (·.name == partition)).map (·.device)

/-- Checks the partitions that have a job against the manifest. -/
def verifyDevices (P : Primitives) (c : Config) (m : Manifest) (t : FileTree) :
    Except PackageError Unit :=
  let known := m.partitions.filter fun partition => (deviceOf? c partition.name).isSome
  Manifest.verify P t (fun partition => (deviceOf? c partition).getD (Path.ofText "")) ⟨known⟩

/-! ## Updates -/

/-- Runs a job, unless it was finished before, and records it. -/
def stepJob (P : Primitives) (now : Timestamp) (c : Config) (job : PartitionJob)
    (record : PartitionRecord) : UpdateM PartitionRecord := do
  onProgress (·.setProportion job.proportion)
  if c.retry && record.isUpdated job.name then
    onProgress (·.advance 1)
    return record
  ExceptT.mk (fun s =>
    let (result, s) := (runJob P c job).run s
    (result.mapError (.job job.name), s))
  if c.dryRun then
    return record
  onFiles .record (record.mark job.name true now)

/-- Runs jobs in order. -/
def runJobs (P : Primitives) (now : Timestamp) (c : Config) :
    List PartitionJob → PartitionRecord → UpdateM PartitionRecord
  | [], record => return record
  | job :: rest, record => do runJobs P now c rest (← stepJob P now c job record)

/-- Reads the record of finished partitions. A fresh update that may write forgets them. -/
def openRecord (c : Config) : UpdateM PartitionRecord := do
  let record ← onFiles .record (FileM.look (PartitionRecord.open_ · c.workDir))
  if !c.retry && !c.dryRun then
    onFiles .record record.clear
  else return record

/-- Runs a configuration. Without jobs there is nothing to do. -/
def run (P : Primitives) (now : Timestamp) (c : Config) : UpdateM Unit := do
  if c.partitions.isEmpty then
    return
  onFiles (.workDir c.workDir) (FileM.makeDirectories c.workDir)
  let manifest ← lift id (loadManifest P c (← get).files)
  let record ← openRecord c
  onProgress Progress.announce
  let _ ← runJobs P now c c.partitions record
  if let some manifest := manifest then
    if c.verifyAfterUpdate && !c.dryRun then
      lift .package (verifyDevices P c manifest (← get).files)
  onProgress Progress.fill

end Update

end BlockUpdate
