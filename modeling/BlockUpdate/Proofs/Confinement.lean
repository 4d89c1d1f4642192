import BlockUpdate.Proofs.Commands
import BlockUpdate.Proofs.Confined

/-!
# Commands write their target only

A command may fail after any of its writes, on a device that fails or because its data is bad, and
it may do so with a stash that cannot be used. In every case the rest of the image is as it was.

- `Machine.Confined region`: the device changed at the bytes of a region only.
- `Command.Reaches`: the bytes that a command may change: those of its target, and none in a dry
  run.
- **`run_confined`**: every end of a command confines the image to these.
- **`upToDate_of_makeTarget`**: after a success the target has the digest that was wanted.
- **`execute_confined`**: both, for the result of a command.
-/

namespace BlockUpdate

namespace Machine

/-- The device changed at the bytes of a region only. -/
structure Confined (region : Nat → Prop) (m m' : Machine) : Prop where
  canWrite : m'.canWrite = m.canWrite
  device : m.device.Confined region m'.device

variable {region region' : Nat → Prop} {m m' : Machine}

instance : IsPreorder Machine (Confined region) where
  refl _ := ⟨rfl, .refl _⟩
  trans _ _ _ h h' := ⟨h'.canWrite.trans h.canWrite, h.device.trans h'.device⟩

theorem Confined.mono (h : Confined region m m') (hregion : ∀ i, region i → region' i) :
    Confined region' m m' := ⟨h.canWrite, h.device.mono hregion⟩

/-! ## Parts of a command -/

section Parts

variable {ε α : Type}

theorem confined_look (f : Machine → Except ε α) (m : Machine) :
    Leaves (Confined region) (look f) m := refl_of (Confined region) m

theorem confined_ofCommand (x : Except CommandError α) (m : Machine) :
    Leaves (Confined region) (ofCommand x) m := confined_look _ m

/-- What is done to the files leaves the device alone. -/
theorem confined_onFiles (x : FileM StashError α) (m : Machine) :
    Leaves (Confined region) (onFiles x) m := ⟨rfl, .refl _⟩

theorem confined_onDevice {x : DeviceM BlockError α}
    (h : Leaves (Device.Confined region) x m.device) : Leaves (Confined region) (onDevice x) m :=
  ⟨rfl, h⟩

theorem confined_reserve (blocks : Nat) (m : Machine) :
    Leaves (Confined region) (reserve blocks) m :=
  Leaves.get_bind <| Leaves.ite (fun _ => Leaves.throw _) fun _ =>
    Leaves.ite (fun _ => Leaves.throw _) fun _ => ⟨rfl, .refl _⟩

theorem confined_release (blocks : Nat) (m : Machine) :
    Leaves (Confined region) (release blocks) m := ⟨rfl, .refl _⟩

theorem confined_addWritten (blocks : Nat) (m : Machine) :
    Leaves (Confined region) (addWritten blocks) m := ⟨rfl, .refl _⟩

end Parts

end Machine

namespace Command

open Machine

variable {P : Primitives} {c : Command} {m m' : Machine} {region : Nat → Prop}

theorem confined_keepSource (r : Recipe) (s : Source) (m : Machine) :
    Leaves (Machine.Confined region) (keepSource r s) m := by
  refine Leaves.get_bind ?_
  cases s.device with
  | none => exact Leaves.pure _
  | some set =>
    exact Leaves.ite (fun _ => Leaves.bind (confined_reserve _ m) fun _ t _ _ =>
      confined_onFiles _ t) fun _ => Leaves.pure _

theorem confined_dropSource (r : Recipe) (m : Machine) :
    Leaves (Machine.Confined region) (dropSource r) m := by
  refine Leaves.get_bind ?_
  cases m.stash.entrySize? m.files r.sourceHash with
  | none => exact Leaves.pure _
  | some size => exact Leaves.bind (confined_release _ m) fun _ t _ _ => confined_onFiles _ t

theorem confined_writeTarget (r : Recipe) (data : Bytes) (m : Machine) :
    Leaves (Machine.Confined r.target.HasByte) (writeTarget P c r data) m := by
  have hsync : ∀ t : Machine, Leaves (Machine.Confined r.target.HasByte)
      (onDevice (DeviceM.sync.mapError .os)) t :=
    fun t => confined_onDevice (DeviceM.confined_sync t.device).deviceMapError
  refine Leaves.ite (fun _ => ?_) fun _ => ?_
  · exact Leaves.bind (confined_onDevice (BlockSet.confined_write _ _ _)) fun _ t _ _ => hsync t
  · refine Leaves.bind (confined_look _ m) fun patch t _ _ =>
      Leaves.bind (confined_onDevice ?_) fun _ t' _ _ => hsync t'
    exact Leaves.ite (fun _ => BlockSet.confined_receive _ _ _) fun _ =>
      BlockSet.confined_receive _ _ _

theorem confined_checkTarget (r : Recipe) (m : Machine) :
    Leaves (Machine.Confined region) (checkTarget P r) m :=
  Leaves.get_bind (Leaves.ite (fun _ => Leaves.throw _) fun _ => Leaves.pure _)

/-- **The steps that overwrite a target** overwrite nothing else. -/
theorem confined_applyRecipe (r : Recipe) (s : Source) (m : Machine) :
    Leaves (Machine.Confined r.target.HasByte) (applyRecipe P c r s) m :=
  Leaves.bind (confined_keepSource r s m) fun _ m₁ _ _ =>
    Leaves.bind (confined_writeTarget r s.data m₁) fun _ m₂ _ _ =>
      Leaves.bind (confined_checkTarget r m₂) fun _ m₃ _ _ => confined_dropSource r m₃

/-! ## Whole commands -/

/-- The bytes that a command may change: those of its target, and none in a dry run. -/
def Reaches (c : Command) (m : Machine) (i : Nat) : Prop := m.canWrite = true ∧ c.Targets i

/-- A command reads its target from its arguments before it does anything else. -/
theorem confined_of_target {position : Nat} (hposition : c.targetPosition? = some position)
    {f : BlockSet → MachineM CommandFailure Unit} (m : Machine)
    (h : ∀ set, c.blockSet position = .ok set →
      Leaves (Machine.Confined fun i => m.canWrite = true ∧ set.HasByte i) (f set) m) :
    Leaves (Machine.Confined (c.Reaches m)) (ofCommand (c.blockSet position) >>= f) m := by
  refine Leaves.bind (confined_ofCommand _ m) fun set t hread _ => ?_
  obtain ⟨hset, rfl⟩ := ofCommand_eq_ok.mp hread
  exact Machine.Confined.mono (h set hset) fun i hi =>
    ⟨hi.1, set, target?_of_position hposition hset, hi.2⟩

theorem confined_fillFromNewData (set : BlockSet) (m : Machine) :
    Leaves (Machine.Confined fun i => m.canWrite = true ∧ set.HasByte i)
      (fillFromNewData set) m := by
  unfold Leaves
  rw [fillFromNewData, outcome_mk]
  rcases m.newData with _ | feed
  · exact refl_of (Machine.Confined _) m
  let s : Feeding := ⟨feed, BlockWriter.new set (!m.canWrite), m.device⟩
  have hfill : m.device.Confined s.writing.writer.Reaches (Feed.fill.run s).2.writing.device :=
    (Feed.confined_fill s).device
  have hreach : ∀ i, s.writing.writer.Reaches i → m.canWrite = true ∧ set.HasByte i := by
    intro i hi
    have hlive : (!m.canWrite) = false := hi.1
    exact ⟨by simpa using hlive, hi.2⟩
  dsimp only
  rcases hrun : Feed.fill.run s with ⟨e | n, t⟩ <;> rw [hrun] at hfill <;>
    exact ⟨rfl, hfill.mono hreach⟩

theorem confined_writeNewData (hposition : c.targetPosition? = some 0) (m : Machine) :
    Leaves (Machine.Confined (c.Reaches m)) c.writeNewData m :=
  confined_of_target hposition m fun set _ =>
    Leaves.bind (confined_fillFromNewData set m) fun _ t _ _ => confined_addWritten _ t

theorem confined_clear (hposition : c.targetPosition? = some 0) (m : Machine) :
    Leaves (Machine.Confined (c.Reaches m)) c.clear m := by
  refine confined_of_target hposition m fun set _ => ?_
  have hcount : ∀ t : Machine, Leaves (Machine.Confined fun i => m.canWrite = true ∧ set.HasByte i)
      (if (!(c.verb == .erase)) = true then addWritten set.total else Pure.pure ()) t :=
    fun t => Leaves.ite (fun _ => confined_addWritten _ t) fun _ => Leaves.pure _
  refine Leaves.get_bind (Leaves.ite (fun hwrite => Leaves.get_bind ?_) fun _ => hcount m)
  have hzero := BlockSet.confined_zero set (c.verb == .erase) m.allowFileErase m.device
  exact Leaves.bind (confined_onDevice (Device.Confined.mono hzero fun i hi => ⟨hwrite, hi⟩))
    fun _ t _ _ => hcount t

theorem confined_makeTarget (hmakes : c.makesTarget) (m : Machine) :
    Leaves (Machine.Confined (c.Reaches m)) (c.makeTarget P) m := by
  refine Leaves.bind (confined_ofCommand _ m) fun r t hread _ => ?_
  obtain ⟨hr, rfl⟩ := ofCommand_eq_ok.mp hread
  refine Leaves.get_bind ?_
  dsimp only
  cases r.target.read? m.device with
  | none => exact Leaves.throw _
  | some current =>
    refine Leaves.ite (fun _ => ?_) fun _ => Leaves.pure _
    refine Leaves.bind (confined_look _ m) fun s t hlook _ => ?_
    obtain ⟨-, rfl⟩ := machineLook_eq_ok.mp hlook
    refine Leaves.ite (fun hwrite => ?_) fun _ => ?_
    · refine Leaves.bind ?_ fun _ t _ _ => confined_addWritten _ t
      exact Machine.Confined.mono (confined_applyRecipe r s m) fun i hi =>
        ⟨hwrite, r.target, target?_of_recipe hmakes hr, hi⟩
    · exact Leaves.bind (confined_look _ m) fun _ t _ _ => confined_addWritten _ t

theorem confined_stashBlocks (m : Machine) :
    Leaves (Machine.Confined region) (c.stashBlocks P) m := by
  refine Leaves.bind (confined_ofCommand _ m) fun id t _ _ =>
    Leaves.bind (confined_ofCommand _ t) fun set n _ _ => Leaves.get_bind ?_
  refine Leaves.ite (fun _ => ?_) fun _ => Leaves.pure _
  cases set.read? n.device with
  | none => exact Leaves.throw _
  | some data =>
    refine Leaves.ite (fun _ => ?_) fun _ => ?_
    · exact Leaves.bind (confined_reserve _ n) fun _ t _ _ => confined_onFiles _ t
    · exact Leaves.ite (fun _ => Leaves.throw _) fun _ => Leaves.pure _

theorem confined_freeEntry (m : Machine) : Leaves (Machine.Confined region) c.freeEntry m := by
  refine Leaves.bind (confined_ofCommand _ m) fun id t _ _ => Leaves.get_bind ?_
  refine Leaves.ite (fun _ => ?_) fun _ => Leaves.pure _
  dsimp only
  cases t.stash.entrySize? t.files id with
  | none => exact confined_onFiles _ t
  | some size => exact Leaves.bind (confined_release _ t) fun _ n _ _ => confined_onFiles _ n

/-- **However a command ends, it changed its target at most**, and nothing in a dry run. -/
theorem run_confined (P : Primitives) (c : Command) (m : Machine) :
    Leaves (Machine.Confined (c.Reaches m)) (c.run P) m := by
  rcases run_cases P c with ⟨-, -, hrun | hrun | hrun⟩ |
    ⟨hposition, ⟨-, hrun⟩ | ⟨-, hrun⟩⟩ | ⟨hmakes, -, hrun⟩ <;> rw [hrun]
  · exact Leaves.pure _
  · exact confined_stashBlocks m
  · exact confined_freeEntry m
  · exact confined_writeNewData hposition m
  · exact confined_clear hposition m
  · exact confined_makeTarget hmakes m

/-! ## Success -/

/-- **A move or a patch that succeeds** leaves its target as it is wanted. -/
theorem upToDate_of_makeTarget (hwrite : m.canWrite = true)
    (hrun : outcome (c.makeTarget P) m = (.ok (), m')) :
    ∃ r, c.recipe = .ok r ∧ UpToDate P r m' := by
  rcases (makeTarget_eq_ok hwrite).mp hrun with ⟨r, hr, hdate, rfl⟩ |
    ⟨r, s, m₁, ⟨hr, current, hread, -⟩, hs, happly, rfl⟩
  · exact ⟨r, hr, hdate⟩
  have hsound := sound_of_blockSet (blockSet_of_recipe hr)
  obtain ⟨m₂, m₃, -, -, hverify, hdrop⟩ := applyRecipe_eq_ok.mp happly
  -- the target could be read before, so it can be read now
  have hconfined : m.device.Confined r.target.HasByte m₁.device := by
    have hleaves := confined_applyRecipe (P := P) (c := c) r s m
    unfold Leaves at hleaves
    rw [happly] at hleaves
    exact hleaves.device
  obtain ⟨found, hfound⟩ :=
    BlockSet.read?_of_size_le (fun _ h => hconfined.faults ▸ h) hconfined.endless
      hconfined.size_le hread
  -- and what was read back is what is there
  have hsame : m₃.device.Confined (fun _ => False) m₁.device := by
    have hleaves : Leaves (Machine.Confined fun _ => False) (dropSource r) m₃ := confined_dropSource r m₃
    unfold Leaves at hleaves
    rw [hdrop] at hleaves
    exact hleaves.device
  refine ⟨r, hr, found, hfound, ?_⟩
  have hreads : m₃.device.SameReads m₁.device :=
    ⟨hsame.image_eq fun _ => not_false, hsame.endless, hsame.faults, hsame.discards⟩
  rw [← BlockSet.readInto_sameReads hreads, BlockSet.readInto_of_read? hsound hfound] at hverify
  exact hverify

/-- **What executing a command leaves of the image**, whatever the result is. It never shrinks, and
the bytes outside the target of the command keep their value. A command without a target leaves the
image alone, and so does a dry run. A move or a patch that succeeds has left in the blocks of its
target, read in the order of its ranges, what has the wanted digest. -/
theorem execute_confined (P : Primitives) (c : Command) (m : Machine) :
    ∃ result m', (c.execute P).run m = (result, m') ∧
      m.device.image.size ≤ m'.device.image.size ∧
      (∀ i, ¬ c.Targets i → m'.device.image.byte i = m.device.image.byte i) ∧
      (c.verb = .stash ∨ c.verb = .free ∨ c.verb = .abort ∨ c.verb = .other →
        m'.device.image = m.device.image) ∧
      (m.canWrite = false → m'.device.image = m.device.image) ∧
      (c.makesTarget → m.canWrite = true → result = .success →
        ∃ r, c.recipe = .ok r ∧ UpToDate P r m') := by
  have hconfined : m.device.Confined (c.Reaches m) (outcome (c.run P) m).2.device :=
    (run_confined P c m).device
  refine ⟨_, _, execute_eq P c m, hconfined.size_le, ?_, ?_, ?_, ?_⟩
  · intro i hi
    exact hconfined.byte i fun hreach => hi hreach.2
  · intro hverb
    refine hconfined.image_eq ?_
    rintro i ⟨-, set, htarget, -⟩
    rw [target?, targetPosition?] at htarget
    rcases hverb with h | h | h | h <;> rw [h] at htarget <;> cases htarget
  · intro hdry
    refine hconfined.image_eq ?_
    rintro i ⟨hlive, -⟩
    exact Bool.false_ne_true (hdry.symm.trans hlive)
  · intro hmakes hwrite hsuccess
    refine upToDate_of_makeTarget hwrite ?_
    rw [← run_of_makesTarget hmakes]
    exact Prod.ext (resultOf_eq_success.mp hsuccess) rfl

end Command

end BlockUpdate
