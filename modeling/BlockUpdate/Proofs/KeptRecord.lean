import BlockUpdate.Proofs.KeptFile
import BlockUpdate.Proofs.Visits

/-!
# A session leaves the record alone

Whatever a job does, and however it ends, the record in the work directory is as it was before; it
may only be lost, where the stash that the job wipes is a directory above it. The names of
partitions may be anything here, and the device may be any file but the record itself.

- `Machine.KeepsRecord`, **`Command.keepsRecord_run`**: commands.
- **`Session.keepsRecord_runScript`**, `keepsRecord_runPackage`: sessions.
- **`Update.keepsRecord_runJob`**: jobs, which write their device back.
-/

namespace BlockUpdate

open FileTree PartitionRecord

variable {P : Primitives} {dir : Place} {lost : Prop}

/-! ## Commands -/

namespace Machine

/-- The record is the same, or lost where it may get lost. -/
def KeepsRecord (lost : Prop) (dir : Place) (m m' : Machine) : Prop :=
  KeepsFile lost (recordAt dir) m.files m'.files

variable {m m' : Machine} {ε α : Type}

instance : IsPreorder Machine (KeepsRecord lost dir) where
  refl m := refl_of (KeepsFile lost (recordAt dir)) m.files
  trans _ _ _ := trans_of (KeepsFile lost (recordAt dir))

theorem Idle.keepsRecord (h : m.Idle m') : m.KeepsRecord lost dir m' := by
  rw [KeepsRecord, h.files]
  exact refl_of (KeepsFile lost (recordAt dir)) m.files

theorem keepsRecord_onFiles {x : FileM StashError α}
    (h : Leaves (KeepsFile lost (recordAt dir)) x m.files) :
    Leaves (KeepsRecord lost dir) (onFiles x) m := h

theorem keepsRecord_ofCommand (x : Except CommandError α) (m : Machine) :
    Leaves (KeepsRecord lost dir) (ofCommand x) m := refl_of (KeepsRecord lost dir) m

theorem keepsRecord_look (f : Machine → Except ε α) (m : Machine) :
    Leaves (KeepsRecord lost dir) (look f) m := refl_of (KeepsRecord lost dir) m

theorem keepsRecord_addWritten (blocks : Nat) (m : Machine) :
    Leaves (KeepsRecord lost dir) (addWritten blocks) m := refl_of (KeepsRecord lost dir) m

/-- An entry is counted and stored. -/
theorem keepsRecord_keep (blocks : Nat) (s : Stash) (id : String) (data : Bytes) (m : Machine) :
    Leaves (KeepsRecord lost dir) (reserve blocks >>= fun _ => onFiles (s.store id data)) m := by
  have hreserve : Leaves (KeepsRecord lost dir) (reserve blocks) m :=
    Leaves.get_bind <| Leaves.ite (fun _ => Leaves.throw _) fun _ =>
      Leaves.ite (fun _ => Leaves.throw _) fun _ => refl_of (KeepsRecord lost dir) m
  exact Leaves.bind hreserve fun _ n _ _ => keepsRecord_onFiles (s.keepsFile_store id data n.files)

/-- An entry is dropped and no longer counted. -/
theorem keepsRecord_drop (blocks : Nat) (s : Stash) (id : String) (m : Machine) :
    Leaves (KeepsRecord lost dir) (release blocks >>= fun _ => onFiles (s.free id)) m :=
  Leaves.bind (refl_of (KeepsRecord lost dir) m) fun _ n _ _ =>
    keepsRecord_onFiles (s.keepsFile_free id n.files)

end Machine

namespace Command

open Machine

variable {c : Command}

theorem keepsRecord_keepSource (r : Recipe) (s : Source) (m : Machine) :
    Leaves (KeepsRecord lost dir) (keepSource r s) m := by
  refine Leaves.get_bind ?_
  cases s.device with
  | none => exact Leaves.pure _
  | some set => exact Leaves.ite (fun _ => keepsRecord_keep _ _ _ _ m) fun _ => Leaves.pure _

theorem keepsRecord_dropSource (r : Recipe) (m : Machine) :
    Leaves (KeepsRecord lost dir) (dropSource r) m := by
  refine Leaves.get_bind ?_
  cases m.stash.entrySize? m.files r.sourceHash with
  | none => exact Leaves.pure _
  | some size => exact keepsRecord_drop _ _ _ m

theorem keepsRecord_makeTarget (m : Machine) :
    Leaves (KeepsRecord lost dir) (c.makeTarget P) m := by
  refine Leaves.bind (keepsRecord_ofCommand _ m) fun r m₁ _ _ => Leaves.get_bind ?_
  dsimp only
  cases r.target.read? m₁.device with
  | none => exact Leaves.throw _
  | some current =>
    refine Leaves.ite (fun _ => Leaves.bind (keepsRecord_look _ m₁) fun s m₂ _ _ => ?_)
      fun _ => Leaves.pure _
    refine Leaves.ite (fun _ => Leaves.bind ?_ fun _ m₃ _ _ => keepsRecord_addWritten _ m₃)
      fun _ => Leaves.bind (keepsRecord_look _ m₂) fun _ m₃ _ _ => keepsRecord_addWritten _ m₃
    exact Leaves.bind (keepsRecord_keepSource r s m₂) fun _ m₃ _ _ =>
      Leaves.bind (idle_writeTarget r s.data m₃).keepsRecord fun _ m₄ _ _ =>
        Leaves.bind (idle_checkTarget r m₄).keepsRecord fun _ m₅ _ _ => keepsRecord_dropSource r m₅

theorem keepsRecord_stashBlocks (m : Machine) :
    Leaves (KeepsRecord lost dir) (c.stashBlocks P) m := by
  refine Leaves.bind (keepsRecord_ofCommand _ m) fun id m₁ _ _ =>
    Leaves.bind (keepsRecord_ofCommand _ m₁) fun set m₂ _ _ => Leaves.get_bind ?_
  refine Leaves.ite (fun _ => ?_) fun _ => Leaves.pure _
  cases set.read? m₂.device with
  | none => exact Leaves.throw _
  | some data =>
    exact Leaves.ite (fun _ => keepsRecord_keep _ _ _ _ m₂) fun _ =>
      Leaves.ite (fun _ => Leaves.throw _) fun _ => Leaves.pure _

theorem keepsRecord_freeEntry (m : Machine) : Leaves (KeepsRecord lost dir) c.freeEntry m := by
  refine Leaves.bind (keepsRecord_ofCommand _ m) fun id m₁ _ _ => Leaves.get_bind ?_
  refine Leaves.ite (fun _ => ?_) fun _ => Leaves.pure _
  dsimp only
  cases m₁.stash.entrySize? m₁.files id with
  | none => exact keepsRecord_onFiles (m₁.stash.keepsFile_free id m₁.files)
  | some size => exact keepsRecord_drop _ _ _ m₁

/-- **However a command ends, the record is as it was.** -/
theorem keepsRecord_run (P : Primitives) (c : Command) (m : Machine) :
    Leaves (KeepsRecord lost dir) (c.run P) m := by
  rcases run_cases P c with ⟨-, -, hrun | hrun | hrun⟩ |
    ⟨-, ⟨-, hrun⟩ | ⟨-, hrun⟩⟩ | ⟨-, -, hrun⟩ <;> rw [hrun]
  · exact Leaves.pure _
  · exact keepsRecord_stashBlocks m
  · exact keepsRecord_freeEntry m
  · exact (idle_writeNewData m).keepsRecord
  · exact (idle_clear m).keepsRecord
  · exact keepsRecord_makeTarget m

end Command

/-! ## Sessions -/

namespace Session

open SessionOptions

variable {o : SessionOptions} {lines : List String} {inputs : ScriptInputs}

/-- The record is the same in the files of a world, or lost where it may get lost. -/
def KeepsRecord (lost : Prop) (dir : Place) (w w' : World) : Prop :=
  KeepsFile lost (recordAt dir) w.files w'.files

instance : IsPreorder World (KeepsRecord lost dir) where
  refl w := refl_of (KeepsFile lost (recordAt dir)) w.files
  trans _ _ _ := trans_of (KeepsFile lost (recordAt dir))

theorem keepsRecord_onFiles {ε α : Type} {f : ε → TransferError} {x : FileM ε α} {w : World}
    (h : Leaves (KeepsFile lost (recordAt dir)) x w.files) :
    Leaves (KeepsRecord lost dir) (onFiles f x) w := h

theorem keepsRecord_lift {ε α : Type} (f : ε → TransferError) (x : Except ε α) (w : World) :
    Leaves (KeepsRecord lost dir) (lift f x) w := refl_of (KeepsRecord lost dir) w

theorem keepsFile_copyEntries (source target : Stash) (ids : List String) (t : FileTree) :
    Leaves (KeepsFile lost (recordAt dir)) (copyEntries source target ids) t := by
  induction ids generalizing t with
  | nil => exact Leaves.pure ()
  | cons id rest ih =>
    refine Leaves.get_bind ?_
    cases source.entrySize? t id with
    | none => exact ih t
    | some size =>
      refine Leaves.bind (refl_of (KeepsFile lost (recordAt dir)) t) fun found t₁ _ _ => ?_
      cases found with
      | none => exact ih t₁
      | some data =>
        exact Leaves.bind (target.keepsFile_store id data t₁) fun _ t₂ _ _ => ih t₂

/-- What a dry run that goes on copies into its stash. -/
theorem keepsFile_copyKept (o : SessionOptions) (scratch : Stash) (t : FileTree) :
    Leaves (KeepsFile lost (recordAt dir)) (do
      if o.retry && (← get).isDirectory o.stashDir then
        let kept ← Stash.open_ o.stashDir false
        copyEntries kept scratch (← FileM.look kept.entries)
      return scratch : FileM StashError Stash) t := by
  refine Leaves.get_bind (Leaves.ite (fun _ => ?_) fun _ => Leaves.pure _)
  exact Leaves.bind (Stash.keepsFile_open (fun h => (Bool.false_ne_true h).elim) t)
    fun kept t₁ _ _ => Leaves.bind (refl_of (KeepsFile lost (recordAt dir)) t₁)
      fun ids t₂ _ _ => Leaves.bind (keepsFile_copyEntries kept scratch ids t₂)
        fun _ _ _ _ => Leaves.pure _

/-- What a session does when it has its stash, before it comes to its commands. -/
theorem keepsRecord_begin (header : ScriptHeader) (stash : Stash) (commands : List String)
    (inputs : ScriptInputs) (w : World) :
    Leaves (KeepsRecord lost dir) (do
      let skip ← onFiles id (findSkip o commands)
      let machine ← lift .stash (startMachine o header stash inputs (← get))
      return { commands, skip, machine } : SessionM Prepared) w := by
  refine Leaves.bind (keepsRecord_onFiles ?_) fun skip w₁ _ _ =>
    Leaves.get_bind (Leaves.bind (keepsRecord_lift _ _ w₁) fun _ _ _ _ => Leaves.pure _)
  refine Leaves.ite (fun _ => Leaves.bind (refl_of (KeepsFile lost (recordAt dir)) w.files)
    fun _ _ _ _ => Leaves.pure _) fun _ => Leaves.ite (fun _ => ?_) fun _ => Leaves.pure _
  exact Leaves.bind (RetryMarker.keepsFile_remove (RetryMarker.ends_path_ne _ _) _)
    fun _ _ _ _ => Leaves.pure _

section Base

variable (hbase : lost ∨ ¬ o.baseDir.ends <+: recordAt dir)

include hbase

/-- **Opening the stash** loses the record only if it is below the stash. -/
theorem keepsFile_openStash (t : FileTree) :
    Leaves (KeepsFile lost (recordAt dir)) (openStash o) t := by
  cases hwrite : o.canWrite with
  | true =>
    rw [openStash_eq o hwrite, ← baseDir_of_canWrite hwrite]
    exact Stash.keepsFile_open (fun _ => hbase) t
  | false =>
    rw [baseDir_of_dry hwrite] at hbase
    rw [openStash, if_neg (by rw [hwrite]; exact Bool.false_ne_true)]
    exact Leaves.bind (Stash.keepsFile_open (fun _ => hbase) t) fun scratch t₁ _ _ =>
      keepsFile_copyKept o scratch t₁

theorem keepsRecord_prepare (w : World) :
    Leaves (KeepsRecord lost dir) (prepare o lines inputs) w := by
  refine Leaves.bind (keepsRecord_lift _ _ w) fun header w₁ _ _ => ?_
  refine Leaves.bind (keepsRecord_onFiles (FileM.keepsFile_makeDirectories _ _)) fun _ w₂ _ _ => ?_
  exact Leaves.bind (keepsRecord_onFiles (keepsFile_openStash hbase _)) fun stash w₃ _ _ =>
    keepsRecord_begin header.1 stash _ inputs w₃

end Base

theorem Visits.keepsRecord {m₀ m : Machine} (h : Visits P o m₀ m) :
    m₀.KeepsRecord lost dir m := by
  induction h with
  | start => exact refl_of (Machine.KeepsRecord lost dir) m₀
  | ran _ c ih => exact trans_of (Machine.KeepsRecord lost dir) ih (c.keepsRecord_run P _)
  | @saved m _ _ c ih =>
    exact trans_of (KeepsFile lost (recordAt dir)) ih
      (RetryMarker.keepsFile_save (RetryMarker.ends_path_ne _ _) _ m.files)

/-- Where the stash of a session is, and what its machine works on, when it comes to its commands. -/
theorem prepare_base {w w' : World} {p : Prepared}
    (h : outcome (prepare o lines inputs) w = (.ok p, w')) :
    p.machine.stash.base = o.baseDir ∧ p.machine.files = w'.files := by
  obtain ⟨header, used, t₁, stash, t₂, skip, t₃, machine, -, -, hopen, -, hmachine, rfl, rfl⟩ :=
    prepare_eq_ok.mp h
  have hbase : stash.base = o.baseDir := by
    cases hwrite : o.canWrite with
    | true =>
      rw [openStash_eq o hwrite, ← baseDir_of_canWrite hwrite] at hopen
      obtain ⟨-, -, -, rfl⟩ := open_eq_ok.mp hopen
      rfl
    | false =>
      obtain ⟨t, hscratch, -⟩ := (openStash_dry_eq_ok hwrite).mp hopen
      obtain ⟨-, -, -, rfl⟩ := open_eq_ok.mp hscratch
      exact (baseDir_of_dry hwrite).symm
  rw [startMachine] at hmachine
  split_ifs at hmachine
  · obtain ⟨ids, -, hcounted⟩ := except_bind_eq_ok.mp hmachine
    exact Except.ok.inj hcounted ▸ ⟨hbase, rfl⟩
  · exact Except.ok.inj hmachine ▸ ⟨hbase, rfl⟩

theorem keepsRecord_cleanUp {s : Stash} (hbase : lost ∨ ¬ s.base.ends <+: recordAt dir) (w : World) :
    Leaves (KeepsRecord lost dir) (cleanUp o s) w :=
  Leaves.bind (keepsRecord_onFiles (s.keepsFile_freeAll hbase w.files)) fun _ w₁ _ _ =>
    Leaves.ite (fun _ => keepsRecord_onFiles
      (RetryMarker.keepsFile_remove (RetryMarker.ends_path_ne _ _) w₁.files)) fun _ => Leaves.pure _

/-- The commands of a script keep the record, as long as they run. -/
theorem keepsRecord_runCommands {w w' : World} {p : Prepared}
    (hprepare : outcome (prepare o lines inputs) w = (.ok p, w')) :
    Leaves (KeepsRecord lost dir) (runCommands P o p) w' := by
  obtain ⟨m, hvisits, -, hafter⟩ := visits_runCommands P o p w'
  rw [Leaves, KeepsRecord, hafter, ← (prepare_base hprepare).2]
  exact hvisits.keepsRecord

/-- **However a session ends, the record is as it was**, or it was below the stash. -/
theorem keepsRecord_runScript (P : Primitives) (hbase : lost ∨ ¬ o.baseDir.ends <+: recordAt dir)
    (lines : List String) (inputs : ScriptInputs) (w : World) :
    Leaves (KeepsRecord lost dir) (runScript P o lines inputs) w := by
  refine Leaves.bind (keepsRecord_prepare hbase w) fun p w₁ hprepare _ => ?_
  have hstash : p.machine.stash.base = o.baseDir := (prepare_base hprepare).1
  exact Leaves.bind (keepsRecord_runCommands hprepare) fun summary w₂ _ _ =>
    Leaves.bind (keepsRecord_cleanUp (hstash ▸ hbase) w₂) fun _ _ _ _ => Leaves.pure _

theorem keepsRecord_readMember? (package : Package) (name : Option String) (w : World) :
    Leaves (KeepsRecord lost dir) (readMember? package name) w := by
  cases name with
  | none => exact Leaves.pure _
  | some name => exact Leaves.bind (keepsRecord_lift _ _ w) fun _ _ _ _ => Leaves.pure _

theorem keepsRecord_runPackage (P : Primitives) (hbase : lost ∨ ¬ o.baseDir.ends <+: recordAt dir)
    (package : Package) (members : Members) (w : World) :
    Leaves (KeepsRecord lost dir) (runPackage P o package members) w :=
  Leaves.bind (keepsRecord_lift _ _ w) fun _ w₁ _ _ =>
    Leaves.bind (keepsRecord_lift _ _ w₁) fun _ w₂ _ _ =>
      Leaves.bind (keepsRecord_readMember? package _ w₂) fun _ w₃ _ _ =>
        Leaves.bind (keepsRecord_readMember? package _ w₃) fun _ w₄ _ _ =>
          keepsRecord_runScript P hbase _ _ w₄

end Session

/-! ## Jobs -/

namespace Update

variable {c : Config} {job : PartitionJob}

/-- The record is the same in the files of a site, or lost where it may get lost. -/
def KeepsRecord (lost : Prop) (dir : Place) (s s' : Site) : Prop :=
  KeepsFile lost (recordAt dir) s.files s'.files

instance : IsPreorder Site (KeepsRecord lost dir) where
  refl s := refl_of (KeepsFile lost (recordAt dir)) s.files
  trans _ _ _ := trans_of (KeepsFile lost (recordAt dir))

theorem keepsRecord_lift {ε ε' α : Type} (f : ε → ε') (x : Except ε α) (s : Site) :
    Leaves (KeepsRecord lost dir) (lift f x) s := refl_of (KeepsRecord lost dir) s

theorem keepsFile_closeDevice {place q : Place} (h : q ≠ place) (d : Device) (t : FileTree) :
    KeepsFile lost q t (closeDevice place d t) := by
  rw [closeDevice]
  split
  · exact keepsFile_put_of_ne h _
  · exact refl_of (KeepsFile lost q) t

/-- The files that a session on a device leaves, the device among them. -/
theorem files_onDevice (p : Path) (d : Device) (x : SessionM Summary) (s : Site) :
    (outcome (onDevice p d x) s).2.files =
      match s.files.locate p with
      | .ok place =>
        closeDevice place (outcome x ⟨d, s.files, s.progress⟩).2.device
          (outcome x ⟨d, s.files, s.progress⟩).2.files
      | .error _ => (outcome x ⟨d, s.files, s.progress⟩).2.files := rfl

/-- A device is written back to where its path ends. -/
theorem keepsRecord_onDevice {p : Path} (hp : p.ends ≠ recordAt dir) (d : Device)
    {x : SessionM Summary} (hx : ∀ w, Leaves (Session.KeepsRecord lost dir) x w) (s : Site) :
    Leaves (KeepsRecord lost dir) (onDevice p d x) s := by
  let w : World := { device := d, files := s.files, progress := s.progress }
  show KeepsFile lost (recordAt dir) s.files (outcome (onDevice p d x) s).2.files
  rw [files_onDevice]
  rcases hlocate : s.files.locate p with _ | place
  · exact hx w
  · refine trans_of (KeepsFile lost (recordAt dir)) (hx w) (keepsFile_closeDevice ?_ _ _)
    rw [eq_ends_of_locate hlocate]
    exact hp.symm

/-- **However a job ends, the record is as it was**, or it was below the stash of the job. -/
theorem keepsRecord_runJob (P : Primitives) (hdevice : job.device.ends ≠ recordAt dir)
    (hbase : lost ∨ ¬ (sessionOptions c job).baseDir.ends <+: recordAt dir) (s : Site) :
    Leaves (KeepsRecord lost dir) (runJob P c job) s := by
  refine Leaves.get_bind (Leaves.bind (keepsRecord_lift _ _ s) fun d s₁ _ _ => ?_)
  refine Leaves.bind (keepsRecord_onDevice hdevice d
    (Session.keepsRecord_runPackage P hbase _ _) s₁) fun d' s₂ _ _ => ?_
  refine Leaves.ite (fun _ => ?_) fun _ => Leaves.pure _
  rw [checkRanges]
  split
  · exact Leaves.bind (keepsRecord_lift _ _ s₂) fun _ _ _ _ =>
      Leaves.ite (fun _ => Leaves.throw _) fun _ => Leaves.pure _
  · exact Leaves.pure _

end Update

end BlockUpdate
