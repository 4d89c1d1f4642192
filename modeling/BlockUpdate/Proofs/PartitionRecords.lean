import BlockUpdate.Proofs.Places
import BlockUpdate.Update.Run

/-!
# The record of an update

The record is a file in the work directory. What an update does with it is said by what is at its
place there.

- `PartitionRecord.recordAt`: where the record is.
- **`PartitionRecord.open_eq`**, **`clear_eq`**, `mark_eq`: reading, removing and writing it.
- `Update.outcome_lift`, `outcome_onFiles`, `outcome_onProgress`: the parts that an update is made of.
- `Update.afterRecord`, **`Update.run_eq`**: an update, from the reading of the record on.
-/

namespace BlockUpdate

open FileTree

namespace PartitionRecord

variable {t t' : FileTree} {workDir : Path} {place : Place} {r : PartitionRecord}

/-! ## The file -/

/-- The place of the record in the directory at a place. -/
def recordAt (place : Place) : Place := place ++ [fileName]

theorem plainName_fileName : PlainName fileName :=
  ⟨by decide, by decide, by decide, by decide, by decide⟩

theorem fileName_size : fileName.utf8ByteSize ≤ maxName := by decide

theorem parts_join_fileName (workDir : Path) :
    (workDir.join fileName).parts = workDir.below ++ [fileName] :=
  Path.parts_join _ plainName_fileName.noSlash

theorem recordAt_ne_nil (place : Place) : recordAt place ≠ [] := by simp [recordAt]

/-- **Reading the record** gives what is at its place. -/
theorem open_eq (h : t.Leads workDir.parts place) :
    open_ t workDir = match t.get? (recordAt place) with
      | some (.file data) =>
        match decode data with
        | some entries => .ok ⟨workDir.join fileName, entries⟩
        | none => .error .malformed
      | some .directory => .error (.os (.errno Errno.isDirectory))
      | none => .ok ⟨workDir.join fileName, []⟩ := by
  have hnode := (leads_below_iff.mpr h).node plainName_fileName (parts_join_fileName workDir)
  rw [if_neg (by have := fileName_size; omega)] at hnode
  rw [open_, FileTree.read, hnode, recordAt]
  rcases t.get? (place ++ [fileName]) with _ | data | _
  · rfl
  · rcases decode data with _ | _ <;> rfl
  · rfl

/-- **Clearing the record** removes its file, which need not be there. -/
theorem clear_eq (h : t.Leads workDir.parts place) (hpath : r.path = workDir.join fileName)
    (hfile : t.get? (recordAt place) ≠ some .directory) :
    outcome r.clear t = (.ok { r with entries := [] }, t.removed (recordAt place)) := by
  have hremove := (FileM.removeIfPresent_eq_ok (leads_below_iff.mpr h) plainName_fileName
    (parts_join_fileName workDir)).mpr ⟨fileName_size, hfile, rfl⟩
  rw [clear, hpath, outcome_bind_of_ok (fileMapError_eq_ok.mpr hremove)]
  rfl

/-- **Recording a partition** writes the file anew. -/
theorem mark_eq (h : t.Leads workDir.parts place) (hpath : r.path = workDir.join fileName)
    (hfile : t.get? (recordAt place) ≠ some .directory) (partition : String) (updated : Bool)
    (now : Timestamp) :
    outcome (r.mark partition updated now) t =
      (.ok { r with entries := insert partition ⟨updated, now⟩ r.entries },
        t.written (recordAt place) (encode (insert partition ⟨updated, now⟩ r.entries))) := by
  have hwrite := (FileM.overwrite_eq_ok (leads_below_iff.mpr h) plainName_fileName
    (parts_join_fileName workDir) (encode (insert partition ⟨updated, now⟩ r.entries))).mpr
      ⟨fileName_size, hfile, rfl⟩
  rw [mark]
  show outcome (FileM.mapError _ (FileM.overwrite r.path _) >>= _) t = _
  rw [hpath, outcome_bind_of_ok (fileMapError_eq_ok.mpr hwrite)]
  rfl

end PartitionRecord

namespace Update

variable {ε ε' α : Type} {s : Site}

/-! ## Parts of an update -/

@[simp] theorem outcome_lift (f : ε → ε') (x : Except ε α) (s : Site) :
    outcome (lift f x) s = (x.mapError f, s) := rfl

@[simp] theorem outcome_onFiles (f : ε → ε') (x : FileM ε α) (s : Site) :
    outcome (onFiles f x) s =
      ((outcome x s.files).1.mapError f, { s with files := (outcome x s.files).2 }) := rfl

@[simp] theorem outcome_onProgress (f : Progress → Progress) (s : Site) :
    outcome (onProgress f : ExceptT ε (StateM Site) Unit) s =
      (.ok (), { s with progress := f s.progress }) := rfl

/-- A session on a device, which is put back where it was. -/
theorem outcome_onDevice (p : Path) (d : Device) (x : SessionM Summary) (s : Site) :
    outcome (onDevice p d x) s =
      let run := outcome x { device := d, files := s.files, progress := s.progress }
      ((run.1.map fun _ => run.2.device).mapError .session,
        { files := match s.files.locate p with
            | .ok place => closeDevice place run.2.device run.2.files
            | .error _ => run.2.files
          progress := run.2.progress }) := rfl

/-- A run after its record was read. -/
def afterRecord (P : Primitives) (now : Timestamp) (c : Config) (manifest : Option Manifest)
    (record : PartitionRecord) : UpdateM Unit := do
  onProgress Progress.announce
  let _ ← runJobs P now c c.partitions record
  if let some manifest := manifest then
    if c.verifyAfterUpdate && !c.dryRun then
      lift .package (verifyDevices P c manifest (← get).files)
  onProgress Progress.fill

/-- **The parts of a run** that has something to do. -/
theorem run_eq (P : Primitives) (now : Timestamp) {c : Config} (hjobs : c.partitions ≠ []) :
    run P now c = (do
      onFiles (.workDir c.workDir) (FileM.makeDirectories c.workDir)
      let manifest ← lift id (loadManifest P c (← get).files)
      let record ← openRecord c
      afterRecord P now c manifest record) := by
  have hsome : c.partitions.isEmpty = false := by simpa using hjobs
  rw [run, hsome]
  rfl

end Update

end BlockUpdate
