import BlockUpdate.Package.Member
import BlockUpdate.Progress
import BlockUpdate.Script.Execute
import BlockUpdate.Script.Marker

/-!
# Sessions

A session runs a script against a partition. A writing session keeps a stash and a retry marker in
the work directory, which name the partition; if it stops early they stay, and a later session
with `retry` goes on from there. A dry run checks the script against the partition as it is, with
a stash of its own.

- `Session.runScript`: runs the lines of a script.
- `Session.runPackage`: runs a script with the data of a package.
-/

namespace BlockUpdate

/-- How a session runs. -/
structure SessionOptions where
  /-- The name of the partition, which also names its stash and marker. -/
  partition : String
  /-- The directory of stashes and markers. -/
  workDir : Path
  /-- Whether the target may be written. -/
  canWrite : Bool := true
  /-- Whether to go on from the marker of an earlier session. -/
  retry : Bool := false
  /-- Whether an erase fills a regular file with zeros. -/
  allowFileErase : Bool := false

namespace SessionOptions

/-- The stash of writing sessions. -/
def stashDir (o : SessionOptions) : Path := o.workDir.join (o.partition ++ "_tmp")

/-- The stash of dry runs. -/
def scratchDir (o : SessionOptions) : Path := o.workDir.join (o.partition ++ "_verify_tmp")

/-- The marker file. -/
def markerPath (o : SessionOptions) : Path := RetryMarker.path o.workDir o.partition

end SessionOptions

/-- What a script reads besides its own lines. -/
structure ScriptInputs where
  patchData : Bytes := ByteArray.empty
  newData : Option NewData := none

/-- What a finished session did. -/
structure Summary where
  executed : Nat
  skipped : Nat
  blocksWritten : Nat
  deriving Repr, DecidableEq

/-- What a session works on besides its script. -/
structure World where
  /-- The target. -/
  device : Device
  files : FileTree
  progress : Progress

/-- Computations of sessions. -/
abbrev SessionM := ExceptT TransferError (StateM World)

namespace Session

/-- Runs a computation on the files. -/
def onFiles {ε α : Type} (f : ε → TransferError) (x : FileM ε α) : SessionM α :=
  ExceptT.mk (fun w =>
    let (result, files) := x.run w.files
    (result.mapError f, { w with files }))

/-- Reads something. -/
def lift {ε α : Type} (f : ε → TransferError) (x : Except ε α) : SessionM α :=
  ExceptT.mk (fun w => (x.mapError f, w))

/-! ## The stash of a session -/

/-- Copies the entries of a stash. -/
def copyEntries (source target : Stash) : List String → FileM StashError Unit
  | [] => return
  | id :: rest => do
    let t ← get
    if let some size := source.entrySize? t id then
      if let some data ← FileM.look (source.load? · id size) then
        target.store id data
    copyEntries source target rest

/-- Opens the stash of a session. A writing session wipes what an earlier one left, unless it goes
on from there. A dry run begins with an empty stash, or with a copy of the partition's own. -/
def openStash (o : SessionOptions) : FileM StashError Stash := do
  if o.canWrite then
    Stash.open_ o.stashDir (!o.retry)
  else
    let scratch ← Stash.open_ o.scratchDir true
    if o.retry && (← get).isDirectory o.stashDir then
      let kept ← Stash.open_ o.stashDir false
      copyEntries kept scratch (← FileM.look kept.entries)
    return scratch

/-! ## The commands of a script -/

/-- The commands still to be run, and what was done so far. -/
structure Run where
  machine : Machine
  progress : Progress
  executed : Nat := 0
  skipped : Nat := 0
  /-- The blocks written when progress was last reported. -/
  reported : Nat := 0

/-- Computations that run commands. -/
abbrev RunM := ExceptT TransferError (StateM Run)

/-- Runs a command. -/
def executeCommand (P : Primitives) (c : Command) : RunM CommandResult :=
  ExceptT.mk (fun r =>
    let (result, machine) := (c.execute P).run r.machine
    (.ok result, { r with machine }))

/-- Saves the marker of a command, unless a resumed session runs it again anyway. -/
def saveMarker (o : SessionOptions) (c : Command) : RunM Unit :=
  if c.verb ≠ .new ∧ o.canWrite then
    ExceptT.mk (fun r =>
      let (result, files) := ((RetryMarker.ofCommand c).save o.markerPath).run r.machine.files
      (result, { r with machine.files := files }))
  else return

/-- The fraction of a script that some of its blocks are. -/
def fractionOf (blocks total : Nat) : Float32 :=
  (UInt64.ofNat blocks).toFloat32 / (UInt64.ofNat total).toFloat32

/-- Moves the progress bar by what was written since it last moved. -/
def report (c : Command) : RunM Unit :=
  modify fun r =>
    let total := r.machine.header.totalBlocks
    if total ≠ 0 ∧ c.verb.countsProgress then
      { r with
        progress := r.progress.advance (fractionOf (r.machine.written - r.reported) total)
        reported := r.machine.written }
    else r

/-- Runs one command to its end. -/
def runCommand (P : Primitives) (o : SessionOptions) (c : Command) : RunM Unit := do
  match ← executeCommand P c with
  | .success =>
    modify fun r => { r with executed := r.executed + 1 }
    saveMarker o c
    report c
  | .needsRetry =>
    modify fun r => { r with progress := r.progress.post "retry_update" "IO_FAILED_REBOOT" }
    throw (.retryRequested c.index c.line)
  | .failed => throw (.commandFailed c.index c.line)

/-- Runs what is on one line: nothing, if the line is blank or no instruction. -/
def runLine (P : Primitives) (o : SessionOptions) (skip : RetrySkip) (index : Nat)
    (line : String) : RunM Unit := do
  match Command.parse index line with
  | .error e => throw (.command e)
  | .ok none => return
  | .ok (some c) =>
    if c.verb ≠ .other then
      if skip.skips c then
        modify fun r => { r with skipped := r.skipped + 1 }
      else
        runCommand P o c

/-- Runs lines, the first of which has the given position. -/
def runLines (P : Primitives) (o : SessionOptions) (skip : RetrySkip) :
    Nat → List String → RunM Unit
  | _, [] => return
  | index, line :: rest => do
    runLine P o skip index line
    runLines P o skip (index + 1) rest

/-! ## Whole sessions -/

/-- What a resumed session skips; a fresh one removes the marker, if it may write. -/
def findSkip (o : SessionOptions) (commands : List String) : FileM TransferError RetrySkip := do
  if o.retry then
    return RetrySkip.resolve (← FileM.look (RetryMarker.load · o.markerPath)) commands
  if o.canWrite then
    RetryMarker.remove o.markerPath
  return RetrySkip.none

/-- The machine at the start of a session. A resumed session counts what its stash holds. -/
def startMachine (o : SessionOptions) (header : ScriptHeader) (stash : Stash)
    (inputs : ScriptInputs) (w : World) : Except StashError Machine :=
  let m : Machine :=
    { device := w.device
      files := w.files
      stash
      header
      canWrite := o.canWrite
      allowFileErase := o.allowFileErase
      patchData := inputs.patchData
      newData := inputs.newData.map Feed.start }
  if o.retry then m.countStash else .ok m

/-- What a session has in hand when it comes to the commands of its script. -/
structure Prepared where
  /-- The lines behind the header. -/
  commands : List String
  skip : RetrySkip
  machine : Machine

/-- Reads the header, opens the stash and finds what to skip. -/
def prepare (o : SessionOptions) (lines : List String) (inputs : ScriptInputs) :
    SessionM Prepared := do
  let (header, used) ← lift .header (ScriptHeader.parse lines)
  let commands := lines.drop used
  onFiles .os (FileM.makeDirectories o.workDir)
  let stash ← onFiles .stash (openStash o)
  let skip ← onFiles id (findSkip o commands)
  let machine ← lift .stash (startMachine o header stash inputs (← get))
  return { commands, skip, machine }

/-- Runs what works on a machine; the machine's device and files are then the world's. -/
def onMachine {α : Type} (m : Machine) (x : RunM α) : SessionM (α × Run) :=
  ExceptT.mk (fun w =>
    let (result, r) := x.run { machine := m, progress := w.progress }
    (result.map fun a => (a, r),
      { device := r.machine.device, files := r.machine.files, progress := r.progress }))

/-- Runs the commands of a script. -/
def runCommands (P : Primitives) (o : SessionOptions) (p : Prepared) : SessionM Summary := do
  let (_, r) ← onMachine p.machine (runLines P o p.skip 0 p.commands)
  return ⟨r.executed, r.skipped, r.machine.written⟩

/-- Removes what a finished session does not need any more. -/
def cleanUp (o : SessionOptions) (stash : Stash) : SessionM Unit := do
  onFiles .stash stash.freeAll
  if o.canWrite then
    onFiles id (RetryMarker.remove o.markerPath)

/-- Runs the lines of a script, its header included. -/
def runScript (P : Primitives) (o : SessionOptions) (lines : List String)
    (inputs : ScriptInputs) : SessionM Summary := do
  let p ← prepare o lines inputs
  let summary ← runCommands P o p
  cleanUp o p.machine.stash
  return summary

/-- The members of a package that belong to one partition. -/
structure Members where
  transferList : String
  newData : Option String
  patchData : Option String
  deriving Repr, DecidableEq

/-- Reads a member, if one is named. -/
def readMember? (package : Package) (name : Option String) : SessionM (Option Bytes) :=
  match name with
  | some name => return some (← lift .package (package.read name))
  | none => return none

/-- Runs the script of a package. -/
def runPackage (P : Primitives) (o : SessionOptions) (package : Package) (members : Members) :
    SessionM Summary := do
  let list ← lift .package (package.read members.transferList)
  let text ← lift .notText (Utf8.decode list)
  let patch ← readMember? package members.patchData
  let new ← readMember? package members.newData
  runScript P o (Blank.lines text)
    { patchData := patch.getD ByteArray.empty, newData := new.map NewData.ofBytes }

end Session

end BlockUpdate
