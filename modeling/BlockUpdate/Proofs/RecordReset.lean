import BlockUpdate.Proofs.PartitionRecords
import BlockUpdate.Standard
import Mathlib

/-!
# What a fresh update makes of an old record

A fresh update that may write forgets which partitions were finished. It reads the record before it
removes it, though, so a record that cannot be read stops it: one that was torn when it was written,
for example.

- `Update.openRecord_fresh`: a fresh update goes on without the record, if this can be read.
- `Update.afterRecord_ne_malformed`: nothing that comes later is stopped by the contents of a record.
- **`Update.run_record_ignored_iff`**: an old record makes no difference exactly when it can be read.
-/

namespace BlockUpdate

open FileTree PartitionRecord

namespace PartitionRecord

theorem path_of_open {t : FileTree} {workDir : Path} {place : Place} {r : PartitionRecord}
    (hwork : t.Leads workDir.parts place) (h : open_ t workDir = .ok r) : r.path = workDir.join fileName := by
  rw [open_eq hwork] at h
  split at h
  · split at h
    · exact Except.ok.inj h ▸ rfl
    · cases h
  · cases h
  · exact Except.ok.inj h ▸ rfl

/-- Recording a partition fails only as writing a file does. -/
theorem mark_eq_error {r : PartitionRecord} {partition : String} {updated : Bool} {now : Timestamp}
    {t t' : FileTree} {e : TransferError}
    (h : outcome (r.mark partition updated now) t = (.error e, t')) : ∃ e', e = .os e' := by
  rcases outcome_bind_eq_error.mp h with hwrite | ⟨_, _, _, hdone⟩
  · rw [outcome_fileMapError] at hwrite
    obtain ⟨e', -, he⟩ := mapError_eq_error.mp (congrArg Prod.fst hwrite)
    exact ⟨e', he.symm⟩
  · cases congrArg Prod.fst hdone

end PartitionRecord

namespace Update

variable {P : Primitives} {now : Timestamp} {c : Config} {s s' : Site} {place : Place}

/-! ## Reading the record -/

/-- What a fresh update does with the record. -/
theorem openRecord_fresh (hretry : c.retry = false) (hdry : c.dryRun = false)
    (hwork : s.files.Leads c.workDir.parts place)
    (hfile : s.files.get? (recordAt place) ≠ some .directory) :
    outcome (openRecord c) s = match open_ s.files c.workDir with
      | .ok _ => (.ok ⟨c.workDir.join fileName, []⟩,
          { s with files := s.files.removed (recordAt place) })
      | .error e => (.error (.record e), s) := by
  have hfresh : (!c.retry && !c.dryRun) = true := by rw [hretry, hdry]; rfl
  rw [openRecord, outcome_bind, outcome_onFiles, outcome_fileLook]
  rcases hopen : open_ s.files c.workDir with e | record
  · rfl
  · show outcome (if (!c.retry && !c.dryRun) = true then
      onFiles UpdateError.record record.clear else pure record) s = _
    rw [if_pos hfresh, outcome_onFiles, clear_eq hwork (path_of_open hwork hopen) hfile]
    simp [Except.mapError, path_of_open hwork hopen]

/-! ## After the record was read -/

/-- A computation that is not stopped by the contents of a record. -/
def NotMalformed {α : Type} (x : UpdateM α) : Prop :=
  ∀ s, (outcome x s).1 ≠ .error (.record .malformed)

theorem NotMalformed.bind {α β : Type} {x : UpdateM α} {f : α → UpdateM β} (hx : NotMalformed x)
    (hf : ∀ a, NotMalformed (f a)) : NotMalformed (x >>= f) := by
  intro s
  rw [outcome_bind]
  rcases hrun : outcome x s with ⟨e | a, s'⟩
  · exact fun h => hx s (by rw [hrun]; exact congrArg _ (Except.error.inj h))
  · exact hf a s'

theorem NotMalformed.pure {α : Type} (a : α) : NotMalformed (pure a) := fun _ h => nomatch h

theorem NotMalformed.onProgress (f : Progress → Progress) : NotMalformed (onProgress f) :=
  fun _ h => nomatch h

theorem notMalformed_stepJob (job : PartitionJob) (record : PartitionRecord) :
    NotMalformed (stepJob P now c job record) := by
  refine .bind (.onProgress _) fun _ => ?_
  split
  · exact .bind (.onProgress _) fun _ => .pure record
  · refine .bind (fun s h => ?_) fun _ => ?_
    · obtain ⟨_, -, he⟩ := mapError_eq_error.mp h
      cases he
    · split
      · exact .pure record
      · intro s h
        rw [outcome_onFiles] at h
        obtain ⟨e, hmark, he⟩ := mapError_eq_error.mp h
        obtain ⟨_, rfl⟩ := mark_eq_error (Prod.ext hmark rfl)
        cases he

/-- **Jobs are not stopped by the contents of a record.** -/
theorem notMalformed_runJobs (jobs : List PartitionJob) (record : PartitionRecord) :
    NotMalformed (runJobs P now c jobs record) := by
  induction jobs generalizing record with
  | nil => exact .pure record
  | cons job rest ih => exact .bind (notMalformed_stepJob job record) fun record' => ih record'

theorem notMalformed_afterRecord (manifest : Option Manifest) (record : PartitionRecord) :
    NotMalformed (afterRecord P now c manifest record) := by
  have hfill : NotMalformed (onProgress Progress.fill) := .onProgress _
  refine .bind (.onProgress _) fun _ => .bind (notMalformed_runJobs _ _) fun _ => ?_
  cases manifest with
  | none => exact hfill
  | some manifest =>
    show NotMalformed (if (c.verifyAfterUpdate && !c.dryRun) = true then _ else _)
    split
    · refine .bind (fun _ h => nomatch h) fun site => .bind (fun _ h => ?_) fun _ => hfill
      obtain ⟨_, -, he⟩ := mapError_eq_error.mp h
      cases he
    · exact hfill

/-! ## An old record -/

/-- A run in a work directory that is there. -/
theorem run_eq_of_leads (hjobs : c.partitions ≠ []) (hwork : s.files.Leads c.workDir.parts place) :
    outcome (run P now c) s = match loadManifest P c s.files with
      | .ok manifest => outcome (openRecord c >>= afterRecord P now c manifest) s
      | .error e => (.error e, s) := by
  have hmake : outcome (onFiles (UpdateError.workDir c.workDir) (FileM.makeDirectories c.workDir)) s =
      (.ok (), s) := by
    rw [outcome_onFiles, FileM.makeDirectories_of_leads hwork]
    rfl
  rw [run_eq P now hjobs, outcome_bind_of_ok hmake, outcome_get_bind, outcome_bind, outcome_lift]
  rcases loadManifest P c s.files with e | manifest <;> rfl

/-- **An old record makes no difference exactly when it can be read.** A fresh update that may write
ends as it does without the record, with the same devices and all else the same, if the record is
one. If it is not, the update stops before the first job, and has changed nothing.

The manifest comes first; if it stops the update, the record is not looked at. -/
theorem run_record_ignored_iff (P : Primitives) (now : Timestamp) (c : Config) (s : Site)
    (place : Place) (data : Bytes) (hjobs : c.partitions ≠ []) (hretry : c.retry = false)
    (hdry : c.dryRun = false) (hwork : s.files.Leads c.workDir.parts place)
    (hrecord : s.files.get? (recordAt place) = some (.file data))
    (hmanifest : loadManifest P c (s.files.erase (recordAt place)) = loadManifest P c s.files) :
    let absent : Site := { s with files := s.files.erase (recordAt place) }
    (∀ e, loadManifest P c s.files = .error e →
      outcome (run P now c) s = (.error e, s) ∧ outcome (run P now c) absent = (.error e, absent)) ∧
    ∀ manifest, loadManifest P c s.files = .ok manifest →
      ((outcome (run P now c) s).1 = (outcome (run P now c) absent).1 ↔ decode data ≠ none) ∧
      (decode data ≠ none → outcome (run P now c) s = outcome (run P now c) absent) ∧
      (decode data = none → outcome (run P now c) s = (.error (.record .malformed), s)) := by
  intro absent
  have hfile : s.files.get? (recordAt place) ≠ some .directory := by simp [hrecord]
  have hget := get?_erase s.files (recordAt_ne_nil place)
  have hnone : absent.files.get? (recordAt place) = none := (hget _).trans (if_pos rfl)
  have hwork' : absent.files.Leads c.workDir.parts place :=
    hwork.mono fun q => (directory_iff_of_get? hget hfile (by simp) q).mpr
  rw [run_eq_of_leads hjobs hwork, run_eq_of_leads hjobs hwork']
  change loadManifest P c absent.files = _ at hmanifest
  rw [hmanifest]
  refine ⟨fun e he => by rw [he]; exact ⟨rfl, rfl⟩, fun manifest hloaded => ?_⟩
  rw [hloaded]
  simp only
  -- without a record there is nothing to remove, and with one it is just this that is removed
  have hwithout : outcome (openRecord c) absent = (.ok ⟨c.workDir.join fileName, []⟩, absent) := by
    rw [openRecord_fresh hretry hdry hwork' (by simp [hnone]), open_eq hwork', hnone, removed, hnone]
  have hopen := open_eq hwork
  rw [hrecord] at hopen
  have hwith := openRecord_fresh hretry hdry hwork hfile
  rw [removed, hrecord] at hwith
  rw [outcome_bind_of_ok hwithout]
  rcases hdecode : decode data with _ | entries
  · simp only [hdecode] at hopen
    rw [hopen] at hwith
    rw [outcome_bind_of_error hwith]
    refine ⟨⟨fun h => ?_, fun h => absurd rfl h⟩, fun h => absurd rfl h, fun _ => rfl⟩
    exact absurd h.symm (notMalformed_afterRecord manifest _ absent)
  · simp only [hdecode] at hopen
    rw [hopen] at hwith
    rw [outcome_bind_of_ok hwith]
    exact ⟨⟨fun _ => by simp, fun _ => rfl⟩, fun _ => rfl, fun h => by cases h⟩

/-- An update of one partition. -/
def onePartition : Config where
  workDir := Path.ofText "w"
  packageDir := Path.ofText "p"
  partitions := [{ name := "a", device := Path.ofText "d", transferList := "l" }]

/-- An interrupted update had emptied its record, and had not come to fill it. -/
def tornRecord : Site where
  files := ⟨[(["w"], .directory), (["w", fileName], .file ⟨#[]⟩), (["p"], .directory),
    (["p", "l"], .file (Bytes.ofText "4\n0\n0\n0\n")), (["d"], .file (Bytes.zeros 4096))]⟩

/-- The empty record stops a fresh update, which does not stop there without it. -/
theorem run_record_ignored_iff_tornRecord :
    let absent : Site := { tornRecord with files := tornRecord.files.erase (recordAt ["w"]) }
    outcome (run .standard ⟨0, 0⟩ onePartition) tornRecord =
      (.error (.record .malformed), tornRecord) ∧
    (outcome (run .standard ⟨0, 0⟩ onePartition) absent).1 ≠ .error (.record .malformed) := by
  have hdecode : decode ⟨#[]⟩ = none := by cbv
  have hstopped := (run_record_ignored_iff .standard ⟨0, 0⟩ onePartition tornRecord ["w"] ⟨#[]⟩
    (List.cons_ne_nil _ _) rfl rfl ⟨by cbv, rfl, rfl⟩ rfl rfl).2 none rfl
  have hrun := hstopped.2.2 hdecode
  refine ⟨hrun, fun habsent => hstopped.1.mp ?_ hdecode⟩
  rw [hrun]
  exact habsent.symm

end Update

end BlockUpdate
