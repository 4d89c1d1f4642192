import BlockUpdate.Standard
import BlockUpdate.Update.Program

/-!
# The command line

The program takes its configuration from the environment. It reads the files that the
configuration names, runs the update on them, and writes back what changed.
-/

namespace BlockUpdate.CommandLine

/-- The names on the way that a path leads. -/
def placeOf (p : Path) : Place := p.parts.filter fun part => part ≠ "" ∧ part ≠ "."

/-- Adds what is at a path of the system, and with `deep` everything below it. -/
partial def load (deep : Bool) (p : Path) (t : FileTree) : IO FileTree := do
  let file := (← IO.currentDir) / p.text
  if ← file.isDir then
    let mut t := t.put (placeOf p) .directory
    if deep then
      for entry in ← file.readDir do
        t ← load deep (p.join entry.fileName) t
    return t
  else if ← file.pathExists then
    return t.put (placeOf p) (.file (← IO.FS.readBinFile file))
  else
    return t

/-- Adds what is at a path of the system and on the way to it. -/
def loadPath (deep : Bool) (p : Path) (t : FileTree) : IO FileTree := do
  let mut t := t
  for n in List.range p.parts.length do
    let above : Path := ⟨p.parts.take n⟩
    if !(placeOf above).isEmpty then
      t ← load false above t
  load deep p t

/-- What an update finds. -/
def loadAll (configPath : Path) : IO FileTree := do
  let t ← loadPath false configPath {}
  match Config.read t configPath with
  | .error _ => return t
  | .ok c =>
    let mut t ← loadPath true c.packageDir (← loadPath true c.workDir t)
    for job in c.partitions do
      t ← loadPath false job.device t
    return t

/-- The path of the system for a place: below the first of the given paths that leads there. -/
def pathOf (roots : List Path) (place : Place) : Path :=
  match roots.find? fun root => (placeOf root).isPrefixOf place with
  | some root => ⟨root.parts ++ place.drop (placeOf root).length⟩
  | none => ⟨"" :: place⟩

/-- Writes what changed. -/
def store (roots : List Path) (old new : FileTree) : IO Unit := do
  let here ← IO.currentDir
  for (place, _) in old.nodes do
    if (new.get? place).isNone then
      let file := here / (pathOf roots place).text
      if ← file.isDir then
        IO.FS.removeDirAll file
      else if ← file.pathExists then
        IO.FS.removeFile file
  for (place, node) in new.nodes do
    if old.get? place ≠ some node then
      let file := here / (pathOf roots place).text
      match node with
      | .directory => IO.FS.createDirAll file
      | .file data => do
        if let some above := file.parent then
          IO.FS.createDirAll above
        IO.FS.writeBinFile file data

/-- The time of the system, as it stamps a new file. -/
def now : IO Timestamp := do
  let stamp ← IO.FS.withTempFile fun _ file => return (← file.metadata).modified
  return ⟨stamp.sec, stamp.nsec.toNat⟩

/-- Runs the update of a configuration file and gives the report of its failure. -/
def run (configPath : Path) : IO (Option String) := do
  let old ← loadAll configPath
  let (failure, new) := Program.run Primitives.standard (← now) configPath old
  let roots := match Config.read new configPath with
    | .ok c => configPath :: c.workDir :: c.partitions.map (·.device)
    | .error _ => [configPath]
  store roots old new
  if (old.node configPath).isOk != (new.node configPath).isOk then
    IO.setAccessRights ((← IO.currentDir) / configPath.text)
      { user := { read := true, write := true } }
  return failure

end BlockUpdate.CommandLine

/-- Runs the program. -/
def main : IO UInt32 := do
  let named ← IO.getEnv "UPDATEKIT_CONFIG"
  let home ← IO.getEnv "HOME"
  match ← BlockUpdate.CommandLine.run (BlockUpdate.Config.location named home) with
  | none => return 0
  | some report =>
    IO.eprint report
    return 1
