import BlockUpdate.Proofs.Sources
import BlockUpdate.Proofs.Writer

/-!
# What each command does

One theorem for each step of a command says when it succeeds and what it leaves. Later proofs
compare runs through these and never open a command again.

- `Machine.Within`: all that commands may change: some of the device, the files of the stash, and
  what was counted.
- `Machine.Does`: how a computation ends whose writes are known beforehand.
- **`Command.writeNewData_eq_ok`**, **`clear_eq_ok`**, **`writeTarget_eq_ok`**: what writes.
- **`keepSource_eq_ok`**, **`dropSource_eq_ok`**, **`stashBlocks_eq_ok`**, **`freeEntry_eq_ok`**:
  what works on the stash.
- **`makeTarget_eq_ok`**: the steps of a move or a patch; `makeTarget_of_dry`: what a dry run does
  instead.
- **`run_within`**: a command that succeeds wrote nothing but its target.
-/

namespace BlockUpdate

/-- Whether a command fails because the stash would hold more than it may. -/
def CommandFailure.IsLimit : CommandFailure → Prop
  | .tooManyEntries .. | .tooManyBlocks .. => True
  | _ => False

/-- The places directly below one. -/
def Stash.Below (place p : Place) : Prop := ∃ name, p = place ++ [name]

namespace Machine

/-! ## What commands may change -/

/-- Between the machines lie writes to some region of the device and changes of files at some
places. -/
structure Within (places : Place → Prop) (region : Nat → Prop) (m m' : Machine) : Prop where
  stash : m'.stash = m.stash
  header : m'.header = m.header
  canWrite : m'.canWrite = m.canWrite
  allowFileErase : m'.allowFileErase = m.allowFileErase
  patchData : m'.patchData = m.patchData
  device : ∃ ws, m'.device = m.device.after ws ∧ ∀ i, Write.Covered ws i → region i
  directories : ∀ p, m'.files.get? p = some .directory ↔ m.files.get? p = some .directory
  elsewhere : ∀ p, ¬ places p → m'.files.get? p = m.files.get? p

namespace Within

variable {places : Place → Prop} {region : Nat → Prop} {m m' m'' : Machine}

theorem refl (m : Machine) : Within places region m m :=
  ⟨rfl, rfl, rfl, rfl, rfl, ⟨[], rfl, fun i h => absurd h (Write.not_covered_nil i)⟩,
    fun _ => Iff.rfl, fun _ _ => rfl⟩

theorem trans (h : Within places region m m') (h' : Within places region m' m'') :
    Within places region m m'' where
  stash := h'.stash.trans h.stash
  header := h'.header.trans h.header
  canWrite := h'.canWrite.trans h.canWrite
  allowFileErase := h'.allowFileErase.trans h.allowFileErase
  patchData := h'.patchData.trans h.patchData
  device := by
    obtain ⟨ws, hdevice, hin⟩ := h.device
    obtain ⟨ws', hdevice', hin'⟩ := h'.device
    refine ⟨ws ++ ws', by rw [hdevice', hdevice, Device.after_append], fun i hi => ?_⟩
    rcases (Write.covered_append ws ws' i).mp hi with hi | hi
    · exact hin i hi
    · exact hin' i hi
  directories p := (h'.directories p).trans (h.directories p)
  elsewhere p hp := (h'.elsewhere p hp).trans (h.elsewhere p hp)

/-- Writes to the device alone. -/
theorem of_writes {ws : List Write} (hin : ∀ i, Write.Covered ws i → region i)
    (feed : Option Feed) (written : Nat) :
    Within places region m
      { m with device := m.device.after ws, newData := feed, written } :=
  ⟨rfl, rfl, rfl, rfl, rfl, ⟨ws, rfl, hin⟩, fun _ => Iff.rfl, fun _ _ => rfl⟩

theorem mono (h : Within places region m m') {places' : Place → Prop} {region' : Nat → Prop}
    (hplaces : ∀ p, places p → places' p) (hregion : ∀ i, region i → region' i) :
    Within places' region' m m' :=
  { h with
    device := by
      obtain ⟨ws, hdevice, hin⟩ := h.device
      exact ⟨ws, hdevice, fun i hi => hregion i (hin i hi)⟩
    elsewhere := fun p hp => h.elsewhere p fun h => hp (hplaces p h) }

/-- What was counted makes no difference. -/
theorem counted (h : Within places region m m') (written : Nat) :
    Within places region m { m' with written } := { h with }

/-- The stash stays where it is. -/
theorem sited (h : Within places region m m') {place : Place} (hm : m.stash.Sited m.files place) :
    m'.stash.Sited m'.files place := by
  rw [h.stash]
  exact hm.mono fun p => (h.directories p).mpr

theorem faults (h : Within places region m m') : m'.device.faults = m.device.faults := by
  obtain ⟨ws, hdevice, -⟩ := h.device
  rw [hdevice, Device.after_faults]

theorem discards (h : Within places region m m') : m'.device.discards = m.device.discards := by
  obtain ⟨ws, hdevice, -⟩ := h.device
  rw [hdevice, Device.after_discards]

theorem size_le (h : Within places region m m') :
    m.device.image.size ≤ m'.device.image.size := by
  obtain ⟨ws, hdevice, -⟩ := h.device
  rw [hdevice, Device.after_image, Bytes.size_overwrite]
  exact Nat.le_max_left ..

theorem endless (h : Within places region m m') : m'.device.endless = m.device.endless := by
  obtain ⟨ws, hdevice, -⟩ := h.device
  rw [hdevice, Device.after_endless]

/-- An image that is written within its size keeps it. -/
theorem size_eq (h : Within places region m m')
    (hregion : ∀ i, region i → i < m.device.image.size) :
    m'.device.image.size = m.device.image.size := by
  obtain ⟨ws, hdevice, hin⟩ := h.device
  rw [hdevice, Device.after_image, Bytes.size_overwrite]
  exact Nat.max_eq_left (Write.reach_le fun i hi => hregion i (hin i hi))

/-- Bytes outside the region stay. -/
theorem byte (h : Within places region m m') {i : Nat} (hi : ¬ region i) :
    m'.device.image.byte i = m.device.image.byte i := by
  obtain ⟨ws, hdevice, hin⟩ := h.device
  rw [hdevice, Device.after_image]
  exact Bytes.byte_overwrite_of_not_covered _ fun hcovered => hi (hin i hcovered)

end Within

/-! ## Known writes -/

/-- A machine whose device took some writes. -/
def wrote (m : Machine) (ws : List Write) : Machine := { m with device := m.device.after ws }

/-- A computation makes its writes and changes other parts by `f`; only a device with faults may
make it fail, and not because of a limit. -/
def Does (x : MachineM CommandFailure Unit) (ws : List Write) (f : Machine → Machine)
    (m : Machine) : Prop :=
  outcome x m = (.ok (), f (m.wrote ws)) ∨
    m.device.faults ≠ Faults.none ∧ ∃ e m', outcome x m = (.error e, m') ∧ ¬ e.IsLimit

/-- On a healthy device it just makes its writes. -/
theorem Does.of_healthy {x : MachineM CommandFailure Unit} {ws : List Write}
    {f : Machine → Machine} {m : Machine} (h : Does x ws f m) (hm : m.device.Healthy) :
    outcome x m = (.ok (), f (m.wrote ws)) :=
  h.resolve_right fun hfaults => hfaults.1 hm.1

/-- A computation that succeeds made its writes. -/
theorem Does.eq_of_ok {x : MachineM CommandFailure Unit} {ws : List Write}
    {f : Machine → Machine} {m m' : Machine} (h : Does x ws f m)
    (hok : outcome x m = (.ok (), m')) : m' = f (m.wrote ws) := by
  rcases h with h | ⟨-, e, n, h⟩
  · rw [hok] at h
    exact congrArg Prod.snd h
  · rw [hok] at h
    cases congrArg Prod.fst h.1

/-- Writes that are planned for a device are those of the machine. -/
theorem onDevice_planned {α : Type} {x : DeviceM BlockError α}
    {Q : Except BlockError α → List Write → Prop} {m m' : Machine} {a : α}
    (hx : PlannedWrites m.device.discards x Q) (h : outcome (onDevice x) m = (.ok a, m')) :
    ∃ ws, Q (.ok a) ws ∧ m' = m.wrote ws ∧ ∀ n : Machine, n.device.discards = m.device.discards →
      outcome (onDevice x) n = (.ok a, n.wrote ws) ∨
        n.device.faults ≠ Faults.none ∧ ∃ e n', outcome (onDevice x) n = (.error e, n') ∧
          ¬ e.IsLimit := by
  obtain ⟨r, ⟨⟩, ws, hq, hd⟩ := hx
  obtain ⟨d, hrun, rfl⟩ := machineOnDevice_eq_ok.mp h
  have hfirst := hd m.device rfl
  rw [hrun] at hfirst
  rcases hfirst with hfirst | ⟨-, e, s, hfirst⟩
  · obtain ⟨hr, hdev⟩ := Prod.ext_iff.mp hfirst
    obtain rfl : .ok a = r := hr
    refine ⟨ws, hq, by rw [show d = m.device.after ws from hdev, wrote], fun n hdiscards => ?_⟩
    rcases hd n.device hdiscards with hn | ⟨hfaults, e, s, hn⟩
    · exact .inl (machineOnDevice_eq_ok.mpr ⟨_, hn, rfl⟩)
    · exact .inr ⟨hfaults, .block e, { n with device := s }, by
        rw [outcome_machineOnDevice, hn]; rfl, id⟩
  · cases congrArg Prod.fst hfirst

/-! ## Counting -/

/-- The limits allow one more entry of some blocks. -/
def HasRoom (m : Machine) (blocks : Nat) : Prop :=
  exceeds (m.stashedEntries + 1) m.header.maxStashEntries = false ∧
    exceeds (m.stashedBlocks + blocks) m.header.maxStashBlocks = false

/-- There is no less room where no more is counted. -/
theorem HasRoom.of_le {m n : Machine} {blocks : Nat} (h : m.HasRoom blocks)
    (hheader : n.header = m.header) (hentries : n.stashedEntries ≤ m.stashedEntries)
    (hblocks : n.stashedBlocks ≤ m.stashedBlocks) : n.HasRoom blocks := by
  rw [HasRoom] at h ⊢
  rw [hheader]
  simp only [exceeds, Bool.and_eq_false_iff, decide_eq_false_iff_not] at h ⊢
  exact ⟨h.1.imp id (by omega), h.2.imp id (by omega)⟩

theorem reserve_eq_ok {m m' : Machine} {blocks : Nat} :
    outcome (reserve blocks) m = (.ok (), m') ↔ m.HasRoom blocks ∧
      m' = { m with
        stashedEntries := m.stashedEntries + 1, stashedBlocks := m.stashedBlocks + blocks } := by
  rw [reserve, outcome_get_bind, HasRoom]
  by_cases hentries : exceeds (m.stashedEntries + 1) m.header.maxStashEntries = true
  · rw [if_pos hentries, hentries]
    exact ⟨nofun, fun h => nomatch h.1.1⟩
  by_cases hblocks : exceeds (m.stashedBlocks + blocks) m.header.maxStashBlocks = true
  · rw [if_neg hentries, if_pos hblocks, hblocks]
    exact ⟨nofun, fun h => nomatch h.1.2⟩
  rw [if_neg hentries, if_neg hblocks]
  exact ⟨fun h => ⟨⟨Bool.eq_false_iff.mpr hentries, Bool.eq_false_iff.mpr hblocks⟩,
    (congrArg Prod.snd h).symm⟩, fun h => by rw [h.2]; rfl⟩

/-! ## The stash -/

/-- What storing one more entry leaves. -/
def keeping (m : Machine) (place : Place) (id : String) (blocks : Nat) (data : Bytes) : Machine :=
  { m with
    files := Stash.stored m.files place id data
    stashedEntries := m.stashedEntries + 1
    stashedBlocks := m.stashedBlocks + blocks }

/-- What removing an entry of some size leaves. -/
def dropped (m : Machine) (place : Place) (id : String) (size : Nat) : Machine :=
  { m with
    files := m.files.removed (place ++ [id])
    stashedEntries := m.stashedEntries - 1
    stashedBlocks := m.stashedBlocks - size / blockSize }

/-- An entry is removed, if there is one. -/
def Drops (m : Machine) (place : Place) (id : String) (m' : Machine) : Prop :=
  (m.stash.entrySize? m.files id = none ∧ m' = m) ∨
    ∃ size, m.stash.entrySize? m.files id = some size ∧
      m.files.get? (place ++ [id]) ≠ some .directory ∧ m' = m.dropped place id size

section Stash

variable {m m' : Machine} {place : Place} {id : String}

theorem keep_eq_ok (h : m.stash.Sited m.files place) {blocks : Nat} {data : Bytes} :
    outcome (reserve blocks >>= fun _ => onFiles (m.stash.store id data)) m = (.ok (), m') ↔
      m.HasRoom blocks ∧ Stash.Storable m.files place id ∧ m' = m.keeping place id blocks data := by
  rw [outcome_bind_eq_ok]
  constructor
  · rintro ⟨⟨⟩, m₁, hreserve, hstore⟩
    obtain ⟨hroom, rfl⟩ := reserve_eq_ok.mp hreserve
    obtain ⟨t, ht, rfl⟩ := machineOnFiles_eq_ok.mp hstore
    obtain ⟨hstorable, rfl⟩ := (Stash.store_eq_ok h data).mp ht
    exact ⟨hroom, hstorable, rfl⟩
  · rintro ⟨hroom, hstorable, rfl⟩
    exact ⟨(), _, reserve_eq_ok.mpr ⟨hroom, rfl⟩,
      machineOnFiles_eq_ok.mpr ⟨_, (Stash.store_eq_ok h data).mpr ⟨hstorable, rfl⟩, rfl⟩⟩

theorem drop_eq_ok (h : m.stash.Sited m.files place) {size : Nat} :
    outcome (release (size / blockSize) >>= fun _ => onFiles (m.stash.free id)) m = (.ok (), m') ↔
      Stash.Entry id ∧ m.files.get? (place ++ [id]) ≠ some .directory ∧
        m' = m.dropped place id size := by
  rw [release, outcome_bind_of_ok (outcome_modify _ m), machineOnFiles_eq_ok]
  constructor
  · rintro ⟨t, ht, rfl⟩
    obtain ⟨hentry, hdir, rfl⟩ := (Stash.free_eq_ok h).mp ht
    exact ⟨hentry, hdir, rfl⟩
  · rintro ⟨hentry, hdir, rfl⟩
    exact ⟨_, (Stash.free_eq_ok h).mpr ⟨hentry, hdir, rfl⟩, rfl⟩

/-- An entry that is stored is below the stash. -/
theorem within_keeping (region : Nat → Prop) (hstorable : Stash.Storable m.files place id)
    (blocks : Nat) (data : Bytes) : Within (Stash.Below place) region m (m.keeping place id blocks data) where
  stash := rfl
  header := rfl
  canWrite := rfl
  allowFileErase := rfl
  patchData := rfl
  device := ⟨[], rfl, fun i h => absurd h (Write.not_covered_nil i)⟩
  directories := Stash.directory_stored hstorable data
  elsewhere p hp := by
    show (Stash.stored m.files place id data).get? p = _
    rw [Stash.get?_stored, if_neg fun h => hp ⟨_, h⟩, if_neg fun h => hp ⟨_, h⟩]

/-- An entry that is removed is below the stash. -/
theorem Drops.within {region : Nat → Prop} (h : m.Drops place id m') : Within (Stash.Below place) region m m' := by
  rcases h with ⟨-, rfl⟩ | ⟨size, -, hdir, rfl⟩
  · exact .refl _
  · have hget := FileTree.get?_removed m.files hdir
    refine ⟨rfl, rfl, rfl, rfl, rfl, ⟨[], rfl, fun i h => absurd h (Write.not_covered_nil i)⟩,
      FileTree.directory_iff_of_get? hget hdir nofun, fun p hp => ?_⟩
    show (m.files.removed _).get? p = _
    rw [hget, if_neg fun h => hp ⟨_, h⟩]

theorem Drops.device (h : m.Drops place id m') : m'.device = m.device := by
  rcases h with ⟨-, rfl⟩ | ⟨_, -, -, rfl⟩ <;> rfl

/-- An entry that is no directory can be removed, if it is there. -/
theorem exists_drops (hdir : m.files.get? (place ++ [id]) ≠ some .directory) :
    ∃ m', m.Drops place id m' := by
  rcases hsize : m.stash.entrySize? m.files id with _ | size
  · exact ⟨m, .inl ⟨hsize, rfl⟩⟩
  · exact ⟨_, .inr ⟨size, hsize, hdir, rfl⟩⟩

end Stash

end Machine

namespace Command

variable {P : Primitives} {c : Command} {m m' : Machine} {place : Place}

/-! ## New, zero and erase -/

theorem sound_of_blockSet {position : Nat} {set : BlockSet} (h : c.blockSet position = .ok set) :
    set.Sound := by
  rw [blockSet, except_bind_eq_ok] at h
  obtain ⟨text, -, h⟩ := h
  rw [blockSetOf, mapError_eq_ok] at h
  exact BlockSet.sound_of_parse h

/-- A writing command fills a writer of its own from the feed. -/
theorem outcome_fillFromNewData {set : BlockSet} {feed : Feed} (hwrite : m.canWrite = true)
    (hfeed : m.newData = some feed) :
    outcome (fillFromNewData set) m =
      (((outcome Feed.fill (Feed.feeding (feed, BlockWriter.new set false) m.device)).1.map
          fun _ => ()).mapError .feed,
        { m with
          device := (outcome Feed.fill
            (Feed.feeding (feed, BlockWriter.new set false) m.device)).2.writing.device
          newData := some (outcome Feed.fill
            (Feed.feeding (feed, BlockWriter.new set false) m.device)).2.feed }) := by
  have hlive : (!m.canWrite) = false := by rw [hwrite]; rfl
  rw [fillFromNewData, outcome_mk, hfeed, hlive]
  rcases hfound : outcome Feed.fill (Feed.feeding (feed, BlockWriter.new set false) m.device) with
    ⟨_ | _, s⟩
  all_goals
    have hrun : Feed.fill.run ⟨feed, BlockWriter.new set false, m.device⟩ = _ := hfound
    simp only [hrun]
    rfl

/-- **What new data writes, and what it leaves of the feed**, depends on the feed alone. -/
theorem writeNewData_eq_ok (hwrite : m.canWrite = true)
    (h : outcome c.writeNewData m = (.ok (), m')) :
    ∃ set feed feed' ws, c.blockSet 0 = .ok set ∧ m.newData = some feed ∧ Write.Fill set ws ∧
      m' = { m.wrote ws with newData := some feed', written := m.written + set.total } ∧
      ∀ n, n.device.discards = m.device.discards → n.canWrite = true → n.newData = some feed →
        Machine.Does c.writeNewData ws
          (fun n => { n with newData := some feed', written := n.written + set.total }) n := by
  rw [writeNewData, outcome_bind_eq_ok] at h
  obtain ⟨set, m₁, hfirst, h⟩ := h
  obtain ⟨hset, rfl⟩ := ofCommand_eq_ok.mp hfirst
  obtain ⟨⟨⟩, m₂, hfill, h⟩ := outcome_bind_eq_ok.mp h
  obtain rfl : { m₂ with written := m₂.written + set.total } = m' := congrArg Prod.snd h
  rcases hfeed : m.newData with _ | feed
  · rw [fillFromNewData, outcome_mk, hfeed] at hfill
    cases congrArg Prod.fst hfill
  obtain ⟨r, ⟨feed', writer⟩, ws, hcover, hd⟩ :=
    Feed.planned_fill (D := m.device.discards) (sound_of_blockSet hset) feed
  -- the plan ends well, because it did so here
  have hok : ∃ n, r = .ok n := by
    rw [outcome_fillFromNewData hwrite hfeed] at hfill
    rcases hd m.device rfl with hm | ⟨-, e, s, hm⟩
    · rw [hm] at hfill
      cases r with
      | ok n => exact ⟨n, rfl⟩
      | error e => cases congrArg Prod.fst hfill
    · rw [hm] at hfill
      cases congrArg Prod.fst hfill
  obtain ⟨count, rfl⟩ := hok
  have hdoes : ∀ n : Machine, n.device.discards = m.device.discards → n.canWrite = true →
      n.newData = some feed → Machine.Does c.writeNewData ws
        (fun n => { n with newData := some feed', written := n.written + set.total }) n := by
    intro n hdiscards hn hnfeed
    rw [Machine.Does, writeNewData, outcome_bind_of_ok (ofCommand_eq_ok.mpr ⟨hset, rfl⟩),
      outcome_bind,
      outcome_fillFromNewData hn hnfeed]
    rcases hd n.device hdiscards with hn | ⟨hfaults, e, s, hn⟩
    · exact .inl (by rw [hn]; rfl)
    · exact .inr ⟨hfaults, .feed e, _, by rw [hn]; rfl, id⟩
  refine ⟨set, feed, feed', ws, hset, rfl, hcover ⟨count, rfl⟩, ?_, hdoes⟩
  rw [outcome_fillFromNewData hwrite hfeed] at hfill
  rcases hd m.device rfl with hm | ⟨-, e, s, hm⟩
  · rw [hm] at hfill
    obtain rfl := congrArg Prod.snd hfill
    rfl
  · rw [hm] at hfill
    cases congrArg Prod.fst hfill

/-- The blocks that a command counts as written when it fills its target with zeros. -/
def clearedBlocks (c : Command) (set : BlockSet) : Nat := if c.verb = .erase then 0 else set.total

/-- **What a target is cleared with** depends on the command alone, and on what the device leaves of
what it discards. -/
theorem clear_eq_ok (hwrite : m.canWrite = true) (h : outcome c.clear m = (.ok (), m')) :
    ∃ set ws, c.blockSet 0 = .ok set ∧ Write.Fill set ws ∧
      m' = { m.wrote ws with written := m.written + c.clearedBlocks set } ∧
      ∀ n, n.device.discards = m.device.discards → n.canWrite = true →
        n.allowFileErase = m.allowFileErase → Machine.Does c.clear ws
        (fun n => { n with written := n.written + c.clearedBlocks set }) n := by
  obtain ⟨set, m₁, hfirst, -⟩ := outcome_bind_eq_ok.mp h
  obtain ⟨hset, -⟩ := ofCommand_eq_ok.mp hfirst
  have hcount : ∀ n : Machine, outcome (if (!c.verb == .erase) = true then
      Machine.addWritten set.total else pure ⟨⟩) n =
        (.ok (), { n with written := n.written + c.clearedBlocks set }) := by
    intro n
    rw [clearedBlocks]
    by_cases hverb : c.verb = .erase
    · rw [if_neg (by simp [hverb]), if_pos hverb]
      rfl
    · rw [if_pos (by simp [hverb]), if_neg hverb]
      rfl
  have hclear : ∀ n : Machine, n.canWrite = true → outcome c.clear n =
      outcome (Machine.onDevice (set.zero (c.verb == .erase) n.allowFileErase) >>= fun _ =>
        if (!c.verb == .erase) = true then Machine.addWritten set.total else pure ⟨⟩) n := by
    intro n hn
    rw [clear, outcome_bind_of_ok (ofCommand_eq_ok.mpr ⟨hset, rfl⟩), outcome_get_bind, if_pos hn,
      outcome_get_bind]
  rw [hclear m hwrite, outcome_bind_eq_ok] at h
  obtain ⟨⟨⟩, m₂, hzero, h⟩ := h
  obtain ⟨ws, ⟨hin, hcover⟩, rfl, hall⟩ :=
    Machine.onDevice_planned (BlockSet.planned_zero (sound_of_blockSet hset) _ _) hzero
  rw [hcount] at h
  obtain rfl := congrArg Prod.snd h
  refine ⟨set, ws, hset, fun i => ⟨hin i, hcover rfl i⟩, rfl, fun n hdiscards hn herase => ?_⟩
  rw [Machine.Does, hclear n hn, herase, outcome_bind]
  rcases hall n hdiscards with hn | ⟨hfaults, e, n', hn, hlimit⟩
  · exact .inl (by rw [hn]; exact hcount _)
  · exact .inr ⟨hfaults, e, n', by rw [hn], hlimit⟩

/-! ## Writing a target -/

/-- Where a command names its target. -/
theorem blockSet_of_recipe {r : Recipe} (h : c.recipe = .ok r) :
    c.blockSet (if c.isMove then 1 else 4) = .ok r.target := by
  rw [recipe] at h
  split_ifs at h ⊢ <;>
  · obtain ⟨_, -, h⟩ := except_bind_eq_ok.mp h
    obtain ⟨_, -, h⟩ := except_bind_eq_ok.mp h
    obtain ⟨target, htarget, h⟩ := except_bind_eq_ok.mp h
    rw [← Except.ok.inj h]
    exact htarget

/-- How a target is written from its source and the window of the patch data. -/
def targetWriter (P : Primitives) (c : Command) (r : Recipe) (patch data : Bytes) :
    DeviceM BlockError Nat :=
  if c.isMove then r.target.write data
  else if c.verb == .imgdiff then r.target.applyImagePatch P patch data
  else r.target.applyBlockPatch P patch data

theorem planned_targetWriter {D : Option Discards} {r : Recipe} (hr : r.target.Sound) (patch data : Bytes) :
    PlannedWrites D (targetWriter P c r patch data) fun result ws =>
      (∃ n, result = .ok n) → Write.Fill r.target ws := by
  rw [targetWriter]
  split_ifs
  · exact (BlockSet.planned_write hr data).imp fun result ws h hok i => ⟨h.1 i, h.2 hok i⟩
  · exact BlockSet.planned_receive hr _
  · exact BlockSet.planned_receive hr _

/-- **What a move or a patch writes** depends on its source and the patch data, and fills the
target. -/
theorem writeTarget_eq_ok {r : Recipe} (hr : r.target.Sound) {data : Bytes}
    (h : outcome (writeTarget P c r data) m = (.ok (), m')) :
    ∃ ws, Write.Fill r.target ws ∧ m' = m.wrote ws ∧
      ∀ n, n.device.discards = m.device.discards → n.patchData = m.patchData →
        Machine.Does (writeTarget P c r data) ws id n := by
  -- the patch is looked up before anything is written
  obtain ⟨patch, hpatch⟩ : ∃ patch, ∀ n : Machine, n.patchData = m.patchData →
      outcome (writeTarget P c r data) n =
        outcome (Machine.onDevice (targetWriter P c r patch data) >>= fun _ =>
          Machine.onDevice (DeviceM.sync.mapError .os)) n := by
    by_cases hmove : c.isMove = true
    · refine ⟨ByteArray.empty, fun n _ => ?_⟩
      rw [writeTarget, if_pos hmove, targetWriter, if_pos hmove]
    · rw [writeTarget, if_neg hmove] at h
      obtain ⟨patch, m₁, hlook, -⟩ := outcome_bind_eq_ok.mp h
      obtain ⟨hpatch, -⟩ := machineLook_eq_ok.mp hlook
      refine ⟨patch, fun n hn => ?_⟩
      rw [writeTarget, if_neg hmove, outcome_bind_of_ok
        (machineLook_eq_ok.mpr ⟨by rw [hn]; exact hpatch, rfl⟩), targetWriter, if_neg hmove]
  rw [hpatch m rfl, outcome_bind_eq_ok] at h
  obtain ⟨n₁, m₁, hwrites, hsync⟩ := h
  obtain ⟨ws, hfill, rfl, hall⟩ :=
    Machine.onDevice_planned (planned_targetWriter hr patch data) hwrites
  have hquiet : PlannedWrites (m.wrote ws).device.discards (DeviceM.sync.mapError BlockError.os)
      fun _ ws => ws = [] := DeviceM.planned_sync.mapError fun r ws h => h.2
  obtain ⟨ws', rfl, rfl, hall'⟩ := Machine.onDevice_planned hquiet hsync
  refine ⟨ws, hfill ⟨n₁, rfl⟩, rfl, fun n hdiscards hn => ?_⟩
  rw [Machine.Does, hpatch n hn, outcome_bind]
  rcases hall n hdiscards with hwrote | ⟨hfaults, e, n', hfail, hlimit⟩
  · rw [hwrote]
    rcases hall' (n.wrote ws) hdiscards with hsynced | ⟨hfaults, e, n', hfail, hlimit⟩
    · exact .inl hsynced
    · exact .inr ⟨hfaults, e, n', hfail, hlimit⟩
  · exact .inr ⟨hfaults, e, n', by rw [hfail], hlimit⟩

/-! ## Keeping and dropping sources -/

/-- A command keeps a source that it is about to overwrite and that the stash does not hold. -/
def Keeps (r : Recipe) (s : Source) (m : Machine) : Prop :=
  ∃ set, s.device = some set ∧ set.overlaps r.target = true ∧
    m.stash.contains m.files r.sourceHash = false

theorem outcome_keepSource {r : Recipe} {s : Source} (h : Keeps r s m) :
    outcome (keepSource r s) m = outcome (Machine.reserve s.blocks >>= fun _ =>
      Machine.onFiles (m.stash.store r.sourceHash s.data)) m := by
  obtain ⟨set, hset, hoverlap, hcontains⟩ := h
  rw [keepSource, outcome_get_bind, hset]
  simp only
  rw [if_pos (by rw [hoverlap, hcontains]; rfl)]

theorem keepSource_eq_ok (hsited : m.stash.Sited m.files place) {r : Recipe} {s : Source} :
    outcome (keepSource r s) m = (.ok (), m') ↔
      (Keeps r s m ∧ m.HasRoom s.blocks ∧ Stash.Storable m.files place r.sourceHash ∧
        m' = m.keeping place r.sourceHash s.blocks s.data) ∨ (¬ Keeps r s m ∧ m' = m) := by
  have hnot : ¬ Keeps r s m → outcome (keepSource r s) m = (.ok (), m) := by
    intro hkeeps
    rw [keepSource, outcome_get_bind]
    split
    · rename_i set hset
      rw [if_neg]
      · rfl
      · intro h
        simp only [Bool.and_eq_true, Bool.not_eq_true'] at h
        exact hkeeps ⟨set, hset, h.1, h.2⟩
    · rfl
  by_cases hkeeps : Keeps r s m
  · rw [outcome_keepSource hkeeps, Machine.keep_eq_ok hsited]
    exact ⟨fun h => .inl ⟨hkeeps, h⟩, fun h => h.elim (fun h => h.2) fun h => absurd hkeeps h.1⟩
  · rw [hnot hkeeps]
    exact ⟨fun h => .inr ⟨hkeeps, (congrArg Prod.snd h).symm⟩,
      fun h => h.elim (fun h => absurd h.1 hkeeps) fun h => by rw [h.2]⟩

theorem dropSource_eq_ok (hsited : m.stash.Sited m.files place) {r : Recipe} :
    outcome (dropSource r) m = (.ok (), m') ↔ m.Drops place r.sourceHash m' := by
  rw [dropSource, outcome_get_bind, Machine.Drops]
  rcases hsize : m.stash.entrySize? m.files r.sourceHash with _ | size
  · simp [eq_comm]
  · have hentry := (Stash.entrySize?_eq_some hsited).mp hsize
    simp only
    rw [Machine.drop_eq_ok hsited]
    simp [hentry.1]

/-! ## Stash and free -/

/-- **Freeing an entry** does nothing in a session that found its stash. -/
theorem freeEntry_eq_ok (hsited : m.stash.Sited m.files place) :
    outcome c.freeEntry m = (.ok (), m') ↔ ∃ id, c.arg 0 = .ok id ∧
      ((m.stash.created = false ∧ m' = m) ∨
        (m.stash.created = true ∧ Stash.Entry id ∧ m.Drops place id m')) := by
  rw [freeEntry, ofCommand_bind_eq_ok]
  refine exists_congr fun id => and_congr_right fun _ => ?_
  rw [outcome_get_bind]
  cases hcreated : m.stash.created with
  | false => simp [eq_comm]
  | true =>
    rw [if_pos rfl, Machine.Drops]
    rcases hsize : m.stash.entrySize? m.files id with _ | size
    · -- there is nothing to remove
      simp only [machineOnFiles_eq_ok, Stash.free_eq_ok hsited]
      have hkeep : Stash.Entry id → m.files.get? (place ++ [id]) = none := fun hentry =>
        ((Stash.entrySize?_eq_none hsited).mp hsize).resolve_left fun h => h hentry
      constructor
      · rintro ⟨t, ⟨hentry, -, rfl⟩, rfl⟩
        refine .inr ⟨trivial, hentry, .inl ⟨trivial, ?_⟩⟩
        rw [FileTree.removed, hkeep hentry]
      · rintro (⟨h, -⟩ | ⟨-, hentry, ⟨-, rfl⟩ | ⟨_, h, -⟩⟩)
        · cases h
        · refine ⟨m'.files, ⟨hentry, by simp [hkeep hentry], ?_⟩, rfl⟩
          rw [FileTree.removed, hkeep hentry]
        · cases h
    · simp only
      rw [Machine.drop_eq_ok hsited]
      simp

/-- **Stashing blocks** does nothing if there is an entry of their size. A dry run passes over blocks
of another digest. -/
theorem outcome_stashBlocks_eq_ok (hsited : m.stash.Sited m.files place) :
    outcome (stashBlocks P c) m = (.ok (), m') ↔
      ∃ id set, c.arg 0 = .ok id ∧ c.blockSet 1 = .ok set ∧
        ((m.stash.entrySize? m.files id = some set.byteLength ∧ m' = m) ∨
          (m.stash.entrySize? m.files id ≠ some set.byteLength ∧ ∃ data,
            set.read? m.device = some data ∧
            ((Checksum.verify P data set.total id = true ∧ m.HasRoom set.total ∧
                Stash.Storable m.files place id ∧ m' = m.keeping place id set.total data) ∨
              (Checksum.verify P data set.total id = false ∧ m.canWrite = false ∧ m' = m)))) := by
  rw [stashBlocks, ofCommand_bind_eq_ok]
  refine exists_congr fun id => ?_
  rw [exists_and_left]
  refine and_congr_right fun _ => ?_
  rw [ofCommand_bind_eq_ok]
  refine exists_congr fun set => and_congr_right fun _ => ?_
  rw [outcome_get_bind]
  by_cases hsize : m.stash.entrySize? m.files id = some set.byteLength
  · rw [if_neg (by simpa using hsize)]
    exact ⟨fun h => .inl ⟨hsize, (congrArg Prod.snd h).symm⟩,
      fun h => h.elim (fun h => by rw [h.2]; rfl) fun h => absurd hsize h.1⟩
  rw [if_pos hsize]
  rcases hread : set.read? m.device with _ | data
  · exact ⟨nofun, fun h => h.elim (fun h => absurd h.1 hsize) fun ⟨_, _, h, _⟩ => nomatch h⟩
  by_cases hverify : Checksum.verify P data set.total id = true
  · simp only
    rw [if_pos hverify, Machine.keep_eq_ok hsited]
    refine ⟨fun h => .inr ⟨hsize, data, rfl, .inl ⟨hverify, h⟩⟩, fun h => ?_⟩
    obtain ⟨_, found, hfound, ⟨-, h⟩ | ⟨h, -⟩⟩ := h.resolve_left fun h => hsize h.1
    · rw [Option.some.inj hfound]
      exact h
    · rw [← Option.some.inj hfound, hverify] at h
      cases h
  · have hnot := Bool.eq_false_iff.mpr hverify
    simp only
    rw [if_neg hverify]
    cases hwrite : m.canWrite with
    | true =>
      rw [if_pos rfl]
      refine ⟨nofun, fun h => ?_⟩
      obtain ⟨_, found, hfound, ⟨h, -⟩ | ⟨-, h, -⟩⟩ := h.resolve_left fun h => hsize h.1
      · rw [← Option.some.inj hfound] at h
        exact absurd h hverify
      · cases h
    | false =>
      rw [if_neg Bool.false_ne_true]
      refine ⟨fun h => .inr ⟨hsize, data, rfl, .inr ⟨hnot, rfl, (congrArg Prod.snd h).symm⟩⟩,
        fun h => ?_⟩
      obtain ⟨_, found, hfound, ⟨h, -⟩ | ⟨-, -, rfl⟩⟩ := h.resolve_left fun h => hsize h.1
      · rw [← Option.some.inj hfound] at h
        exact absurd h hverify
      · rfl

theorem stashBlocks_eq_ok (hwrite : m.canWrite = true) (hsited : m.stash.Sited m.files place) :
    outcome (stashBlocks P c) m = (.ok (), m') ↔
      ∃ id set, c.arg 0 = .ok id ∧ c.blockSet 1 = .ok set ∧
        ((m.stash.entrySize? m.files id = some set.byteLength ∧ m' = m) ∨
          (m.stash.entrySize? m.files id ≠ some set.byteLength ∧ ∃ data,
            set.read? m.device = some data ∧ Checksum.verify P data set.total id = true ∧
            m.HasRoom set.total ∧ Stash.Storable m.files place id ∧
            m' = m.keeping place id set.total data)) := by
  rw [outcome_stashBlocks_eq_ok hsited, hwrite]
  simp only [Bool.true_eq_false, false_and, and_false, or_false]

/-! ## Moves and patches -/

/-- A command finds its target as it is wanted. -/
def UpToDate (P : Primitives) (r : Recipe) (m : Machine) : Prop :=
  ∃ current, r.target.read? m.device = some current ∧
    Checksum.verify P current r.target.total r.targetHash = true

/-- The source of a move or a patch is loaded only if its target is not as wanted. -/
def Needs (P : Primitives) (c : Command) (m : Machine) (r : Recipe) : Prop :=
  c.recipe = .ok r ∧ ∃ current, r.target.read? m.device = some current ∧
    Checksum.verify P current r.target.total r.targetHash = false

/-- **The source of a move or a patch** is what is loaded, or else what the stash holds under its
digest. -/
theorem source_eq_ok {r : Recipe} {s : Source} :
    c.source P r m = .ok s ↔
      ∃ found, Source.load c r.sourcePosition m.device m.stash m.files = .ok found ∧
        ((Checksum.verify P found.data found.blocks r.sourceHash = true ∧ s = found) ∨
          (Checksum.verify P found.data found.blocks r.sourceHash = false ∧ ∃ data,
            m.stash.load? m.files r.sourceHash (found.blocks * blockSize) = .ok (some data) ∧
            Checksum.verify P data found.blocks r.sourceHash = true ∧ s = { found with data })) := by
  rw [source, except_bind_eq_ok]
  refine exists_congr fun found => and_congr_right fun _ => ?_
  by_cases hverify : Checksum.verify P found.data found.blocks r.sourceHash = true
  · rw [if_pos hverify, hverify]
    exact ⟨fun h => .inl ⟨rfl, (Except.ok.inj h).symm⟩,
      fun h => h.elim (fun h => congrArg Except.ok h.2.symm) fun h => nomatch h.1⟩
  · rw [if_neg hverify, Bool.eq_false_iff.mpr hverify, except_bind_eq_ok]
    have hrecover : ∀ data, recover P r found.blocks m.stash m.files = .ok data ↔
        m.stash.load? m.files r.sourceHash (found.blocks * blockSize) = .ok (some data) ∧
          Checksum.verify P data found.blocks r.sourceHash = true := by
      intro data
      rw [recover, except_bind_eq_ok]
      simp only [mapError_eq_ok]
      constructor
      · rintro ⟨_ | other, hload, h⟩
        · cases h
        · simp only at h
          split_ifs at h with hother
          · cases h
            exact ⟨hload, hother⟩
      · rintro ⟨hload, hdata⟩
        exact ⟨some data, hload, if_pos hdata⟩
    simp only [hrecover]
    constructor
    · rintro ⟨data, ⟨hload, hdata⟩, h⟩
      exact .inr ⟨trivial, data, hload, hdata, (Except.ok.inj h).symm⟩
    · rintro (⟨h, -⟩ | ⟨-, data, hload, hdata, rfl⟩)
      · cases h
      · exact ⟨data, ⟨hload, hdata⟩, rfl⟩

theorem checkTarget_eq_ok {r : Recipe} :
    outcome (checkTarget P r) m = (.ok (), m') ↔
      Checksum.verify P (r.target.readInto m.device) r.target.total r.targetHash = true ∧
        m' = m := by
  rw [checkTarget, outcome_get_bind]
  by_cases hverify :
      Checksum.verify P (r.target.readInto m.device) r.target.total r.targetHash = true
  · rw [if_neg (by simp [hverify])]
    exact ⟨fun h => ⟨hverify, (congrArg Prod.snd h).symm⟩, fun h => by rw [h.2]; rfl⟩
  · rw [if_pos (by simpa using hverify)]
    exact ⟨nofun, fun h => absurd h.1 hverify⟩

/-- **The steps that overwrite a target.** -/
theorem applyRecipe_eq_ok {r : Recipe} {s : Source} :
    outcome (applyRecipe P c r s) m = (.ok (), m') ↔
      ∃ m₁ m₂, outcome (keepSource r s) m = (.ok (), m₁) ∧
        outcome (writeTarget P c r s.data) m₁ = (.ok (), m₂) ∧
        Checksum.verify P (r.target.readInto m₂.device) r.target.total r.targetHash = true ∧
        outcome (dropSource r) m₂ = (.ok (), m') := by
  rw [applyRecipe, outcome_bind_eq_ok]
  constructor
  · rintro ⟨⟨⟩, m₁, hkeep, h⟩
    obtain ⟨⟨⟩, m₂, hwrites, h⟩ := outcome_bind_eq_ok.mp h
    obtain ⟨⟨⟩, m₃, hcheck, hdrop⟩ := outcome_bind_eq_ok.mp h
    obtain ⟨hverify, rfl⟩ := checkTarget_eq_ok.mp hcheck
    exact ⟨m₁, m₃, hkeep, hwrites, hverify, hdrop⟩
  · rintro ⟨m₁, m₂, hkeep, hwrites, hverify, hdrop⟩
    exact ⟨(), m₁, hkeep, outcome_bind_eq_ok.mpr ⟨(), m₂, hwrites, outcome_bind_eq_ok.mpr
      ⟨(), m₂, checkTarget_eq_ok.mpr ⟨hverify, rfl⟩, hdrop⟩⟩⟩

/-- A target that is as wanted is left alone. -/
theorem makeTarget_of_upToDate {r : Recipe} (hr : c.recipe = .ok r) (h : UpToDate P r m) :
    outcome (makeTarget P c) m = (.ok (), m) := by
  obtain ⟨current, hread, hverify⟩ := h
  rw [makeTarget, outcome_bind_of_ok (ofCommand_eq_ok.mpr ⟨hr, rfl⟩), outcome_get_bind, hread]
  simp only
  rw [if_neg (by simp [hverify])]
  rfl

/-- Otherwise it is made from its source. -/
theorem makeTarget_of_needs (hwrite : m.canWrite = true) {r : Recipe} (h : Needs P c m r)
    {s : Source} (hs : c.source P r m = .ok s) :
    outcome (makeTarget P c) m =
      outcome (applyRecipe P c r s >>= fun _ => Machine.addWritten r.target.total) m := by
  obtain ⟨hr, current, hread, hverify⟩ := h
  rw [makeTarget, outcome_bind_of_ok (ofCommand_eq_ok.mpr ⟨hr, rfl⟩), outcome_get_bind, hread]
  simp only
  rw [if_pos (by simp [hverify]), outcome_bind_of_ok (machineLook_eq_ok.mpr ⟨hs, rfl⟩),
    if_pos hwrite]

/-- **A move or a patch** leaves a target that is as wanted, and otherwise makes it from its
source. -/
theorem makeTarget_eq_ok (hwrite : m.canWrite = true) :
    outcome (makeTarget P c) m = (.ok (), m') ↔
      (∃ r, c.recipe = .ok r ∧ UpToDate P r m ∧ m' = m) ∨
      ∃ r s m₁, Needs P c m r ∧ c.source P r m = .ok s ∧
        outcome (applyRecipe P c r s) m = (.ok (), m₁) ∧
        m' = { m₁ with written := m₁.written + r.target.total } := by
  constructor
  · intro h
    obtain ⟨r, hr, hsteps⟩ := ofCommand_bind_eq_ok.mp h
    rw [outcome_get_bind] at hsteps
    rcases hread : r.target.read? m.device with _ | current
    · rw [hread] at hsteps
      cases hsteps
    · by_cases hverify : Checksum.verify P current r.target.total r.targetHash = true
      · rw [makeTarget_of_upToDate hr ⟨current, hread, hverify⟩] at h
        exact .inl ⟨r, hr, ⟨current, hread, hverify⟩, (congrArg Prod.snd h).symm⟩
      · rw [hread] at hsteps
        simp only at hsteps
        rw [if_pos (by simpa using hverify), machineLook_bind_eq_ok] at hsteps
        obtain ⟨s, hs, -⟩ := hsteps
        have hneeds : Needs P c m r := ⟨hr, current, hread, Bool.eq_false_iff.mpr hverify⟩
        rw [makeTarget_of_needs hwrite hneeds hs, outcome_bind_eq_ok] at h
        obtain ⟨⟨⟩, m₁, happly, h⟩ := h
        exact .inr ⟨r, s, m₁, hneeds, hs, happly, (congrArg Prod.snd h).symm⟩
  · rintro (⟨r, hr, hdate, rfl⟩ | ⟨r, s, m₁, hneeds, hs, happly, rfl⟩)
    · exact makeTarget_of_upToDate hr hdate
    · rw [makeTarget_of_needs hwrite hneeds hs, outcome_bind_of_ok happly]
      rfl

/-! ## Dry runs -/

/-- What a dry run finds of the output of a command. -/
def rehearse (P : Primitives) (c : Command) (r : Recipe) (patchData data : Bytes) :
    Except CommandFailure Unit := do
  checkOutput P r (← c.output P patchData data)

/-- Both kinds of runs need the same. -/
theorem Needs.of_live {r : Recipe} (h : Needs P c m r) (live : Bool) : Needs P c { m with canWrite := live } r := h

theorem source_live (P : Primitives) (c : Command) (r : Recipe) (m : Machine) (live : Bool) :
    c.source P r { m with canWrite := live } = c.source P r m := rfl

/-- Machines in which a command finds the same. -/
structure FindsAlike (m n : Machine) : Prop where
  device : m.device.ReadsAlike n.device
  stash : n.stash = m.stash
  files : n.files = m.files

theorem FindsAlike.source {n : Machine} (h : FindsAlike m n) (P : Primitives) (c : Command)
    (r : Recipe) : c.source P r n = c.source P r m := by
  simp only [Command.source, h.stash, h.files, Source.load_alike h.device]

theorem FindsAlike.needs {n : Machine} (h : FindsAlike m n) {r : Recipe} (hneeds : Needs P c m r) :
    Needs P c n r := by
  rw [Needs, BlockSet.read?_alike h.device]
  exact hneeds

/-- **A command that does not have to make its target** ends in the same way in all machines in
which it finds the same; if it fails, then because of what it says or what it finds. -/
theorem makeTarget_of_finds (P : Primitives) (c : Command) (m : Machine) :
    (∃ result, (∀ e, result = .error e → (∃ e', c.recipe = .error e' ∧ e = .command e') ∨
        (∃ set, e = .unreadable set) ∨ ∃ r, c.source P r m = .error e) ∧
      ∀ n, FindsAlike m n → outcome (makeTarget P c) n = (result, n)) ∨
    ∃ r s, Needs P c m r ∧ c.source P r m = .ok s := by
  rcases hr : c.recipe with e | r
  · refine .inl ⟨.error (.command e), ?_, fun n _ => ?_⟩
    · rintro _ ⟨⟩
      exact .inl ⟨e, rfl, rfl⟩
    · rw [makeTarget, outcome_bind_of_error]
      rw [outcome_ofCommand, hr]
      rfl
  rcases hread : r.target.read? m.device with _ | current
  · refine .inl ⟨.error (.unreadable r.target), ?_, fun n h => ?_⟩
    · rintro _ ⟨⟩
      exact .inr (.inl ⟨_, rfl⟩)
    · rw [makeTarget, outcome_bind_of_ok (ofCommand_eq_ok.mpr ⟨hr, rfl⟩), outcome_get_bind]
      simp only [BlockSet.read?_alike h.device, hread]
      rfl
  by_cases hverify : Checksum.verify P current r.target.total r.targetHash = true
  · exact .inl ⟨.ok (), nofun, fun n h => makeTarget_of_upToDate hr
      ⟨current, (BlockSet.read?_alike h.device).trans hread, hverify⟩⟩
  rcases hs : c.source P r m with e | s
  · refine .inl ⟨.error e, ?_, fun n h => ?_⟩
    · rintro _ ⟨⟩
      exact .inr (.inr ⟨r, hs⟩)
    · rw [makeTarget, outcome_bind_of_ok (ofCommand_eq_ok.mpr ⟨hr, rfl⟩), outcome_get_bind]
      simp only [BlockSet.read?_alike h.device, hread]
      rw [if_pos (by simpa using hverify), outcome_bind_of_error]
      rw [outcome_machineLook]
      exact congrArg (fun found => (found, n)) ((h.source P c r).trans hs)
  · exact .inr ⟨r, s, ⟨hr, current, hread, Bool.eq_false_iff.mpr hverify⟩, hs⟩

/-- A command ends in the same way in both kinds of runs, unless it has to make its target. -/
theorem makeTarget_cases (P : Primitives) (c : Command) (m : Machine) :
    (∃ result, ∀ live, outcome (makeTarget P c) { m with canWrite := live } =
      (result, { m with canWrite := live })) ∨
    ∃ r s, Needs P c m r ∧ c.source P r m = .ok s := by
  refine (makeTarget_of_finds P c m).imp_left fun ⟨result, _, hrun⟩ => ⟨result, fun live => ?_⟩
  exact hrun _ ⟨.refl _, rfl, rfl⟩

/-- A dry run only looks at what would be written. -/
theorem makeTarget_of_dry (hdry : m.canWrite = false) {r : Recipe} {s : Source}
    (hneeds : Needs P c m r) (hs : c.source P r m = .ok s) :
    outcome (makeTarget P c) m =
      outcome (Machine.look (fun m => rehearse P c r m.patchData s.data) >>= fun _ =>
        Machine.addWritten r.target.total) m := by
  obtain ⟨hr, current, hread, hverify⟩ := hneeds
  rw [makeTarget, outcome_bind_of_ok (ofCommand_eq_ok.mpr ⟨hr, rfl⟩), outcome_get_bind, hread]
  simp only
  rw [if_pos (by simp [hverify]), outcome_bind_of_ok (machineLook_eq_ok.mpr ⟨hs, rfl⟩),
    if_neg (by rw [hdry]; exact Bool.false_ne_true)]
  rfl

/-! ## Any command -/

/-- The verbs that make blocks from other blocks. -/
def makesTarget (c : Command) : Prop :=
  c.verb = .move ∨ c.verb = .copy ∨ c.verb = .bsdiff ∨ c.verb = .imgdiff

/-- A byte that a command may write. -/
def Targets (c : Command) (i : Nat) : Prop := ∃ set, c.target? = some set ∧ set.HasByte i

theorem target?_of_position {position : Nat} (hposition : c.targetPosition? = some position)
    {set : BlockSet} (hset : c.blockSet position = .ok set) : c.target? = some set := by
  rw [target?, hposition]
  show (c.blockSet position).toOption = some set
  rw [hset]
  rfl

theorem target?_of_recipe (hverb : c.makesTarget) {r : Recipe} (hr : c.recipe = .ok r) :
    c.target? = some r.target := by
  refine target?_of_position ?_ (blockSet_of_recipe hr)
  rw [targetPosition?, isMove]
  rcases hverb with h | h | h | h <;> rw [h] <;> rfl

theorem within_applyRecipe (hsited : m.stash.Sited m.files place) {r : Recipe}
    (hr : r.target.Sound) {s : Source} (h : outcome (applyRecipe P c r s) m = (.ok (), m')) :
    Machine.Within (Stash.Below place) r.target.HasByte m m' := by
  obtain ⟨m₁, m₂, hkeep, hwrites, -, hdrop⟩ := applyRecipe_eq_ok.mp h
  have hkept : Machine.Within (Stash.Below place) r.target.HasByte m m₁ := by
    rcases (keepSource_eq_ok hsited).mp hkeep with ⟨-, -, hstorable, rfl⟩ | ⟨-, rfl⟩
    · exact Machine.within_keeping _ hstorable _ _
    · exact .refl _
  obtain ⟨ws, hfill, rfl, -⟩ := writeTarget_eq_ok hr hwrites
  have hwrote : Machine.Within (Stash.Below place) r.target.HasByte m₁ (m₁.wrote ws) :=
    .of_writes (fun i => (hfill i).mp) m₁.newData m₁.written
  exact (hkept.trans hwrote).trans
    ((dropSource_eq_ok ((hkept.trans hwrote).sited hsited)).mp hdrop).within

/-- How a command runs, by its verb. -/
theorem run_cases (P : Primitives) (c : Command) :
    (c.targetPosition? = none ∧ c.verb ≠ .new ∧
      (c.run P = pure () ∨ c.run P = c.stashBlocks P ∨ c.run P = c.freeEntry)) ∨
    (c.targetPosition? = some 0 ∧
      (c.verb = .new ∧ c.run P = c.writeNewData ∨ c.verb ≠ .new ∧ c.run P = c.clear)) ∨
    (c.makesTarget ∧ c.verb ≠ .new ∧ c.run P = c.makeTarget P) := by
  rw [targetPosition?, run, makesTarget]
  cases c.verb <;> simp

theorem run_of_makesTarget (h : c.makesTarget) : c.run P = c.makeTarget P := by
  rw [run]
  rcases h with h | h | h | h <;> rw [h]

/-- A command is executed by running it; its result says how that ended. -/
theorem execute_eq (P : Primitives) (c : Command) (m : Machine) :
    (c.execute P).run m = (resultOf (outcome (c.run P) m).1, (outcome (c.run P) m).2) := rfl

theorem resultOf_eq_success {result : Except CommandFailure Unit} :
    resultOf result = .success ↔ result = .ok () := by
  rcases result with failure | ⟨⟩
  · rw [resultOf]
    split <;> simp
  · exact ⟨fun _ => rfl, fun _ => rfl⟩

theorem execute_eq_success :
    (c.execute P).run m = (.success, m') ↔ outcome (c.run P) m = (.ok (), m') := by
  rw [execute_eq, Prod.ext_iff, Prod.ext_iff, resultOf_eq_success]

/-- **A command that succeeds wrote nothing but its target.** -/
theorem run_within (hwrite : m.canWrite = true) (hsited : m.stash.Sited m.files place)
    (h : outcome (c.run P) m = (.ok (), m')) : Machine.Within (Stash.Below place) c.Targets m m' := by
  rcases run_cases P c with ⟨-, -, hrun | hrun | hrun⟩ |
    ⟨hposition, ⟨-, hrun⟩ | ⟨-, hrun⟩⟩ | ⟨hmakes, -, hrun⟩ <;> rw [hrun] at h
  · obtain rfl := congrArg Prod.snd h
    exact .refl _
  · obtain ⟨id, set, -, -, ⟨-, rfl⟩ | ⟨-, data, -, -, -, hstorable, rfl⟩⟩ :=
      (stashBlocks_eq_ok hwrite hsited).mp h
    · exact .refl _
    · exact Machine.within_keeping _ hstorable _ _
  · obtain ⟨id, -, ⟨-, rfl⟩ | ⟨-, -, hdrops⟩⟩ := (freeEntry_eq_ok hsited).mp h
    · exact .refl _
    · exact hdrops.within
  · obtain ⟨set, feed, feed', ws, hset, -, hfill, rfl, -⟩ := writeNewData_eq_ok hwrite h
    exact .of_writes (fun i hi => ⟨set, target?_of_position hposition hset, (hfill i).mp hi⟩) _ _
  · obtain ⟨set, ws, hset, hfill, rfl, -⟩ := clear_eq_ok hwrite h
    exact .of_writes (fun i hi => ⟨set, target?_of_position hposition hset, (hfill i).mp hi⟩) _ _
  · obtain ⟨r, -, -, rfl⟩ | ⟨r, s, m₁, ⟨hr, -⟩, -, happly, rfl⟩ := (makeTarget_eq_ok hwrite).mp h
    · exact .refl _
    · exact ((within_applyRecipe hsited (sound_of_blockSet (blockSet_of_recipe hr)) happly).mono
        (fun _ => id) fun i hi => ⟨r.target, target?_of_recipe hmakes hr, hi⟩).counted _

/-- Only `new` takes new data. -/
theorem run_newData (hwrite : m.canWrite = true) (hsited : m.stash.Sited m.files place)
    (hverb : c.verb ≠ .new) (h : outcome (c.run P) m = (.ok (), m')) : m'.newData = m.newData := by
  have hdrops : ∀ {n n' : Machine} {id}, n.Drops place id n' → n'.newData = n.newData := by
    rintro n n' id (⟨-, rfl⟩ | ⟨size, -, -, rfl⟩) <;> rfl
  rcases run_cases P c with ⟨-, -, hrun | hrun | hrun⟩ |
    ⟨-, ⟨hnew, -⟩ | ⟨-, hrun⟩⟩ | ⟨-, -, hrun⟩
  · rw [hrun] at h
    obtain rfl := congrArg Prod.snd h
    rfl
  · rw [hrun] at h
    obtain ⟨id, set, -, -, ⟨-, rfl⟩ | ⟨-, data, -, -, -, -, rfl⟩⟩ :=
      (stashBlocks_eq_ok hwrite hsited).mp h <;> rfl
  · rw [hrun] at h
    obtain ⟨id, -, ⟨-, rfl⟩ | ⟨-, -, h⟩⟩ := (freeEntry_eq_ok hsited).mp h
    · rfl
    · exact hdrops h
  · exact absurd hnew hverb
  · rw [hrun] at h
    obtain ⟨set, ws, -, -, rfl, -⟩ := clear_eq_ok hwrite h
    rfl
  · rw [hrun] at h
    obtain ⟨r, -, -, rfl⟩ | ⟨r, s, m₁, ⟨hr, -⟩, -, happly, rfl⟩ := (makeTarget_eq_ok hwrite).mp h
    · rfl
    · obtain ⟨m₂, m₃, hkeep, hwrites, -, hdrop⟩ := applyRecipe_eq_ok.mp happly
      obtain ⟨ws, -, rfl, -⟩ :=
        writeTarget_eq_ok (sound_of_blockSet (blockSet_of_recipe hr)) hwrites
      have hkept : m₂.newData = m.newData ∧ m₂.stash.Sited m₂.files place := by
        rcases (keepSource_eq_ok hsited).mp hkeep with ⟨-, -, hstorable, rfl⟩ | ⟨-, rfl⟩
        · exact ⟨rfl, (Machine.within_keeping c.Targets hstorable _ _).sited hsited⟩
        · exact ⟨rfl, hsited⟩
      exact (hdrops ((dropSource_eq_ok (m := m₂.wrote ws) hkept.2).mp hdrop)).trans hkept.1

end Command

end BlockUpdate
