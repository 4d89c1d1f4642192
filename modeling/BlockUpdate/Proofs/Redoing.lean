import BlockUpdate.Proofs.DryRun

/-!
# Doing a command again

A command that has succeeded in one machine is run in another, which has the same control state but
an image and a stash of its own. What it writes does not depend on them, so if it succeeds, it makes
the same of its target. Whether it does depends on what it looks at.

- `Machine.Paired`, `Machine.Beside`: what the two machines have in common.
- **`Command.overwrites`**: commands that look at nothing do the same again.
- **`Command.redone`**: a command that is done again makes the same of its target.
- `Command.Repeatable`: what a command must find to be done again.
- **`Command.repeatable_of_run`**, **`Command.run_of_repeatable`**: it succeeds exactly if it finds
  that.
-/

namespace BlockUpdate

namespace Machine

/-- Two machines in which a command writes the same. -/
structure Paired (place place' : Place) (m n : Machine) : Prop where
  live : m.canWrite = true
  live' : n.canWrite = true
  allowFileErase : n.allowFileErase = m.allowFileErase
  endless : m.device.endless = false
  endless' : n.device.endless = false
  discards : n.device.discards = m.device.discards
  sited : m.stash.Sited m.files place
  sited' : n.stash.Sited n.files place'

/-- Both machines made their stashes, and the second one takes the same patches and the same new
data. -/
structure Beside (place place' : Place) (m n : Machine) : Prop extends Paired place place' m n where
  patchData : n.patchData = m.patchData
  newData : n.newData = m.newData
  created : m.stash.created = true
  created' : n.stash.created = true
  plain : ∀ name, n.files.get? (place' ++ [name]) ≠ some .directory

variable {m m' n n' : Machine} {place place' : Place}

/-- Two machines go on side by side. -/
theorem Beside.of_within (h : m.Beside place place' n) {places places' : Place → Prop}
    {region region' : Nat → Prop} (hm : Within places region m m')
    (hn : Within places' region' n n') (hnew : n'.newData = m'.newData) :
    m'.Beside place place' n' where
  live := hm.canWrite.trans h.live
  live' := hn.canWrite.trans h.live'
  allowFileErase := by rw [hn.allowFileErase, hm.allowFileErase, h.allowFileErase]
  endless := hm.endless.trans h.endless
  endless' := hn.endless.trans h.endless'
  discards := by rw [hn.discards, hm.discards, h.discards]
  sited := hm.sited h.sited
  sited' := hn.sited h.sited'
  patchData := by rw [hn.patchData, hm.patchData, h.patchData]
  newData := hnew
  created := by rw [hm.stash, h.created]
  created' := by rw [hn.stash, h.created']
  plain name hdir := h.plain name ((hn.directories _).mp hdir)

end Machine

namespace Command

variable {P : Primitives} {c : Command} {place place' : Place} {m m₁ n n₁ : Machine} {r : Recipe}
  {s : Source}

/-! ## Writing the same -/

/-- **A command that looks at nothing** makes the same writes again. -/
theorem overwrites (h : m.Paired place place' n) (hnew : c.verb = .new → n.newData = m.newData)
    (hposition : c.targetPosition? = some 0) (hrun : outcome (c.run P) m = (.ok (), m₁)) :
    ∃ set ws feed written, c.target? = some set ∧ Write.Fill set ws ∧
      m₁.device = m.device.after ws ∧ (n.newData = m.newData → feed = m₁.newData) ∧
      Machine.Does (c.run P) ws
        (fun n => { n with newData := feed, written := n.written + written }) n := by
  rcases run_cases P c with ⟨hnone, -, -⟩ | ⟨-, ⟨hverb, hsteps⟩ | ⟨-, hsteps⟩⟩ |
    ⟨hmakes, -, -⟩
  · cases hnone.symm.trans hposition
  · rw [hsteps] at hrun ⊢
    obtain ⟨set, feed, feed', ws, hset, hfeed, hfill, rfl, hdoes⟩ :=
      writeNewData_eq_ok h.live hrun
    exact ⟨set, ws, some feed', set.total, target?_of_position hposition hset, hfill, rfl,
      fun _ => rfl, hdoes n h.discards h.live' ((hnew hverb).trans hfeed)⟩
  · rw [hsteps] at hrun ⊢
    obtain ⟨set, ws, hset, hfill, rfl, hdoes⟩ := clear_eq_ok h.live hrun
    exact ⟨set, ws, n.newData, c.clearedBlocks set, target?_of_position hposition hset, hfill, rfl,
      id, hdoes n h.discards h.live' h.allowFileErase⟩
  · rcases hmakes with hverb | hverb | hverb | hverb <;>
      · rw [targetPosition?, hverb] at hposition
        cases hposition

/-- What is digested to see whether a target is as wanted, in both machines. -/
def TargetContents (c : Command) (m n : Machine) (data : Bytes) : Prop :=
  ∃ r, c.recipe = .ok r ∧
    (r.target.read? m.device = some data ∨ r.target.read? n.device = some data)

/-- **A command that is done again makes the same of its target**, whatever it finds there. -/
theorem redone (h : m.Paired place place' n) (hnew : c.verb = .new → n.newData = m.newData)
    (hrun : outcome (c.run P) m = (.ok (), m₁)) (hredo : outcome (c.run P) n = (.ok (), n₁))
    (hsize : m₁.device.image.size ≤ n.device.image.size)
    (hfree : CollisionFree P (c.TargetContents m₁ n₁)) :
    n₁.device.image.size = n.device.image.size ∧
      ∀ i, c.Targets i → n₁.device.image.byte i = m₁.device.image.byte i := by
  have hwithin := run_within h.live h.sited hrun
  have hwithin' := run_within h.live' h.sited' hredo
  rcases run_cases P c with ⟨hnone, -, -⟩ | ⟨hposition, -⟩ | ⟨hmakes, -, hmake⟩
  · have hout : ∀ i, ¬ c.Targets i := by
      rintro i ⟨set, hset, -⟩
      rw [target?, hnone] at hset
      cases hset
    exact ⟨hwithin'.size_eq fun i hi => absurd hi (hout i), fun i hi => absurd hi (hout i)⟩
  · obtain ⟨set, ws, feed, written, htarget, hfill, hdevice, -, hdoes⟩ :=
      overwrites h hnew hposition hrun
    have hdevice' : n₁.device = n.device.after ws :=
      congrArg Machine.device (hdoes.eq_of_ok hredo)
    have hcovered : ∀ i, c.Targets i → Write.Covered ws i := by
      rintro i ⟨set', hset', hi⟩
      rw [htarget] at hset'
      cases hset'
      exact (hfill i).mpr hi
    refine ⟨hwithin'.size_eq fun i hi => ?_, fun i hi => ?_⟩
    · have hreach := Write.lt_reach (hcovered i hi)
      rw [hdevice, Device.after_image, Bytes.size_overwrite] at hsize
      omega
    · rw [hdevice, hdevice']
      exact Bytes.byte_overwrite_of_covered _ _ (hcovered i hi)
  · rw [hmake] at hrun hredo
    obtain ⟨r, hr, current, hread, hverify⟩ := upToDate_of_makeTarget h.live hrun
    obtain ⟨r', hr', current', hread', hverify'⟩ := upToDate_of_makeTarget h.live' hredo
    obtain rfl : r = r' := by
      rw [hr] at hr'
      exact Except.ok.inj hr'
    have hsound := sound_of_blockSet (blockSet_of_recipe hr)
    have hcontents : current' = current :=
      Checksum.eq_of_verify hfree hverify' hverify (BlockSet.size_of_read? hsound hread')
        (BlockSet.size_of_read? hsound hread) ⟨r, hr, .inr hread'⟩ ⟨r, hr, .inl hread⟩
    have htarget : ∀ i, c.Targets i → r.target.HasByte i := by
      rintro i ⟨set, hset, hi⟩
      rw [target?_of_recipe hmakes hr] at hset
      cases hset
      exact hi
    refine ⟨hwithin'.size_eq fun i hi => ?_, fun i hi => ?_⟩
    · exact Nat.lt_of_lt_of_le
        (BlockSet.lt_size_of_read? (hwithin.endless.trans h.endless) hread (htarget i hi)) hsize
    · exact BlockSet.byte_eq_of_read?_eq (hwithin.endless.trans h.endless)
        (hwithin'.endless.trans h.endless') hread (hcontents ▸ hread') (htarget i hi)

/-- A command that is done again leaves the same of the new data. -/
theorem redone_newData (h : m.Beside place place' n) (hrun : outcome (c.run P) m = (.ok (), m₁))
    (hredo : outcome (c.run P) n = (.ok (), n₁)) : n₁.newData = m₁.newData := by
  by_cases hverb : c.verb = .new
  · have hposition : c.targetPosition? = some 0 := by rw [targetPosition?, hverb]
    obtain ⟨set, ws, feed, written, -, -, -, hfeed, hdoes⟩ :=
      overwrites h.toPaired (fun _ => h.newData) hposition hrun
    rw [hdoes.eq_of_ok hredo]
    exact hfeed h.newData
  · rw [run_newData h.live' h.sited' hverb hredo, run_newData h.live h.sited hverb hrun, h.newData]

/-! ## What a command must find -/

/-- A source that is kept and written makes the target. -/
def Makes (P : Primitives) (c : Command) (r : Recipe) (s : Source) (n : Machine) : Prop :=
  ∃ n₁ n₂, outcome (keepSource r s) n = (.ok (), n₁) ∧
    outcome (writeTarget P c r s.data) n₁ = (.ok (), n₂) ∧
    Checksum.verify P (r.target.readInto n₂.device) r.target.total r.targetHash = true

/-- **What a command must find to be done again**, having succeeded in the first of the machines.
What is to be stashed has an entry, or is there and has room. A target is as wanted or has a source,
which must also fit the patch if that was not tried out in the first machine. -/
structure Repeatable (P : Primitives) (c : Command) (m n : Machine) : Prop where
  stashed : c.verb = .stash → ∀ id set, c.arg 0 = .ok id → c.blockSet 1 = .ok set →
    n.stash.entrySize? n.files id = some set.byteLength ∨
      (∃ data, set.read? n.device = some data ∧
        Checksum.verify P data set.total id = true) ∧ n.HasRoom set.total
  made : c.makesTarget → ∀ r, c.recipe = .ok r → UpToDate P r n ∨
    ∃ s, c.source P r n = .ok s ∧ (Keeps r s n → n.HasRoom s.blocks) ∧
      (UpToDate P r m → Makes P c r s n)

/-- **A command that is done again has found what it must.** -/
theorem repeatable_of_run (hlive : n.canWrite = true) (hsited : n.stash.Sited n.files place)
    (hredo : outcome (c.run P) n = (.ok (), n₁)) (m : Machine) : c.Repeatable P m n where
  stashed hverb id set hid hset := by
    have hsteps : c.run P = c.stashBlocks P := by rw [run, hverb]
    rw [hsteps] at hredo
    obtain ⟨id', set', hid', hset', hfound⟩ := (stashBlocks_eq_ok hlive hsited).mp hredo
    obtain rfl := Except.ok.inj (hid.symm.trans hid')
    obtain rfl := Except.ok.inj (hset.symm.trans hset')
    obtain ⟨hsize, -⟩ | ⟨-, data, hread, hverify, hroom, -⟩ := hfound
    · exact .inl hsize
    · exact .inr ⟨⟨data, hread, hverify⟩, hroom⟩
  made hmakes r hr := by
    rw [run_of_makesTarget hmakes] at hredo
    rcases (makeTarget_eq_ok hlive).mp hredo with ⟨r', hr', hdate, -⟩ |
      ⟨r', s, n', ⟨hr', -⟩, hs, happly, -⟩
    · obtain rfl := Except.ok.inj (hr.symm.trans hr')
      exact .inl hdate
    obtain rfl := Except.ok.inj (hr.symm.trans hr')
    obtain ⟨k, k', hkeep, hwrites, hverify, -⟩ := applyRecipe_eq_ok.mp happly
    refine .inr ⟨s, hs, fun hkeeps => ?_, fun _ => ⟨k, k', hkeep, hwrites, hverify⟩⟩
    rcases (keepSource_eq_ok hsited).mp hkeep with ⟨-, hroom, -⟩ | ⟨hnot, -⟩
    · exact hroom
    · exact absurd hkeeps hnot

/-! ## Making a target again -/

/-- What a move or a patch loads as its source, and what it leaves in its target. -/
def Handles (P : Primitives) (c : Command) (m : Machine) (data : Bytes) : Prop :=
  ∃ r, c.recipe = .ok r ∧ ((∃ s, c.Needs P m r ∧ c.source P r m = .ok s ∧ s.data = data) ∨
    r.target.read? (outcome (c.run P) m).2.device = some data)

/-- **A source that has made a target** makes it again. -/
theorem writeTarget_again (h : m.Beside place place' n) (hr : c.recipe = .ok r)
    (hhealthy : n.device.Healthy) (happly : outcome (applyRecipe P c r s) m = (.ok (), m₁))
    (hdate : UpToDate P r m₁) (hsize : m₁.device.image.size ≤ n.device.image.size) {k : Machine}
    (hdevice : k.device = n.device) (hpatchData : k.patchData = n.patchData) :
    ∃ k', outcome (writeTarget P c r s.data) k = (.ok (), k') ∧
      Checksum.verify P (r.target.readInto k'.device) r.target.total r.targetHash = true := by
  have hsound := sound_of_blockSet (blockSet_of_recipe hr)
  obtain ⟨m₂, m₃, hkeep, hwrites, -, hdrop⟩ := applyRecipe_eq_ok.mp happly
  obtain ⟨hdevice₂, hpatchData₂, hsited₂⟩ := keepSource_within h.sited hkeep
  obtain ⟨ws, hfill, rfl, hdoes⟩ := writeTarget_eq_ok hsound hwrites
  have hdrops := (dropSource_eq_ok (m := m₂.wrote ws) hsited₂).mp hdrop
  have hdevice₁ : m₁.device = m.device.after ws := by
    rw [hdrops.device, Machine.wrote, hdevice₂]
  refine ⟨k.wrote ws, (hdoes k (by rw [hdevice, hdevice₂, h.discards])
    (by rw [hpatchData, hpatchData₂, h.patchData])).of_healthy (hdevice ▸ hhealthy), ?_⟩
  have hagain : (k.wrote ws).device = n.device.after ws := by rw [Machine.wrote, hdevice]
  have hhealthy' : (n.device.after ws).Healthy := (Device.after_healthy n.device ws).mpr hhealthy
  rw [hagain]
  -- the target can be read, and the writes decide what is in it
  obtain ⟨current, hread, hverify⟩ := hdate
  have hlarger : m₁.device.image.size ≤ (n.device.after ws).image.size := by
    rw [Device.after_image, Bytes.size_overwrite]
    omega
  have hendless : m₁.device.endless = false := by
    rw [hdevice₁, Device.after_endless]
    exact h.endless
  have hfaults : ∀ start, m₁.device.faults.read start = none →
      (n.device.after ws).faults.read start = none := by
    rw [hhealthy'.1]
    exact fun _ _ => rfl
  obtain ⟨found, hfound⟩ :=
    BlockSet.read?_of_size_le hfaults (hhealthy'.2.trans hendless.symm) hlarger hread
  have hsame : found = current := BlockSet.read?_eq_of_byte_eq hendless hhealthy'.2 hread hfound
    fun i hi => by
      rw [hdevice₁]
      exact Bytes.byte_overwrite_of_covered _ _ ((hfill i).mpr hi)
  rw [BlockSet.readInto_of_read? hsound hfound, hsame]
  exact hverify

/-- **A target is made again** from a source that is found, or from one that fits the patch. -/
theorem makeTarget_again (h : m.Beside place place' n) (hhealthy : n.device.Healthy)
    (hr : c.recipe = .ok r) (hrun : outcome (c.makeTarget P) m = (.ok (), m₁))
    (hsize : m₁.device.image.size ≤ n.device.image.size) (hneeds : c.Needs P n r)
    (hs : c.source P r n = .ok s) (hroom : Keeps r s n → n.HasRoom s.blocks)
    (hmakes : UpToDate P r m → Makes P c r s n)
    (hbrief : Keeps r s n → (P.sha256 s.data).size ≤ 32)
    (hsame : ∀ s', c.Needs P m r → c.source P r m = .ok s' → s'.data = s.data) :
    ∃ n₁, outcome (c.makeTarget P) n = (.ok (), n₁) := by
  have hkeepable : Keepable n place' r s := ⟨hroom, h.sited', h.plain _, h.plain _⟩
  obtain ⟨k, hkeep, hdevice, hpatchData, hsited, hentry⟩ := hkeepable.keepSource hs hbrief
  have hsound := sound_of_blockSet (blockSet_of_recipe hr)
  -- if the source was not tried out in the first machine, it is known to fit
  obtain ⟨k', hwrites, hverify⟩ : ∃ k', outcome (writeTarget P c r s.data) k = (.ok (), k') ∧
      Checksum.verify P (r.target.readInto k'.device) r.target.total r.targetHash = true := by
    rcases (makeTarget_eq_ok h.live).mp hrun with ⟨r', hr', hdate, -⟩ |
      ⟨r', s', m', hneeds', hs', happly, rfl⟩
    · obtain rfl := Except.ok.inj (hr.symm.trans hr')
      obtain ⟨n₁, n₂, hkeep', hwrites, hverify⟩ := hmakes hdate
      obtain rfl : k = n₁ := congrArg Prod.snd (hkeep.symm.trans hkeep')
      exact ⟨n₂, hwrites, hverify⟩
    · obtain rfl := Except.ok.inj (hr.symm.trans hneeds'.1)
      obtain ⟨r', hr', hdate⟩ := upToDate_of_makeTarget h.live hrun
      obtain rfl := Except.ok.inj (hr.symm.trans hr')
      rw [← hsame s' hneeds' hs']
      exact writeTarget_again h hr hhealthy happly hdate hsize hdevice hpatchData
  obtain ⟨ws, -, rfl, -⟩ := writeTarget_eq_ok hsound hwrites
  obtain ⟨n', hdrops⟩ := Machine.exists_drops (m := k.wrote ws) hentry
  have happly : outcome (applyRecipe P c r s) n = (.ok (), n') := applyRecipe_eq_ok.mpr
    ⟨k, k.wrote ws, hkeep, hwrites, hverify, (dropSource_eq_ok (m := k.wrote ws) hsited).mpr hdrops⟩
  exact ⟨_, (makeTarget_eq_ok h.live').mpr (.inr ⟨r, s, n', hneeds, hs, happly, rfl⟩)⟩

/-- Blocks are stashed again that are found, or that have an entry. -/
theorem stashBlocks_again (h : m.Beside place place' n) (hverb : c.verb = .stash)
    (hrun : outcome (c.stashBlocks P) m = (.ok (), m₁)) (hrepeat : c.Repeatable P m n)
    (hbrief : ∀ id data, c.Stashes P n id data → (P.sha256 data).size ≤ 32) :
    ∃ n₁, outcome (c.stashBlocks P) n = (.ok (), n₁) := by
  obtain ⟨id, set, hid, hset, -⟩ := (stashBlocks_eq_ok h.live h.sited).mp hrun
  by_cases hheld : n.stash.entrySize? n.files id = some set.byteLength
  · exact ⟨n, (stashBlocks_eq_ok h.live' h.sited').mpr ⟨id, set, hid, hset, .inl ⟨hheld, rfl⟩⟩⟩
  obtain ⟨⟨data, hread, hverify⟩, hroom⟩ :=
    (hrepeat.stashed hverb id set hid hset).resolve_left hheld
  have hsize := hbrief id data (.blocks hverb hid hset hheld hread hverify)
  have hwhole := BlockSet.size_of_read? (sound_of_blockSet hset) hread
  rw [← Bytes.takeFirst_of_size_le (Nat.le_of_eq hwhole)] at hsize
  obtain ⟨hvalid, hname⟩ := Checksum.entry_of_verify hverify hsize
  exact ⟨_, (stashBlocks_eq_ok h.live' h.sited').mpr ⟨id, set, hid, hset, .inr ⟨hheld, data, hread,
    hverify, hroom, ⟨hvalid, hname, h.plain _, h.plain _⟩, rfl⟩⟩⟩

/-- **A command that finds what it must succeeds again.** -/
theorem run_of_repeatable (h : m.Beside place place' n) (hhealthy : n.device.Healthy)
    (hrun : outcome (c.run P) m = (.ok (), m₁))
    (hsize : m₁.device.image.size ≤ n.device.image.size) (hrepeat : c.Repeatable P m n)
    (hbrief : ∀ id data, c.Stashes P n id data → (P.sha256 data).size ≤ 32)
    (hfree : CollisionFree P fun data => c.Handles P m data ∨ c.Handles P n data) :
    ∃ n₁, outcome (c.run P) n = (.ok (), n₁) := by
  cases hverb : c.verb
  case abort | other =>
    have hsteps : c.run P = pure () := by rw [run, hverb]
    exact ⟨n, by rw [hsteps]; rfl⟩
  case new | zero | erase =>
    have hposition : c.targetPosition? = some 0 := by rw [targetPosition?, hverb]
    obtain ⟨set, ws, feed, written, -, -, -, -, hdoes⟩ :=
      overwrites h.toPaired (fun _ => h.newData) hposition hrun
    exact ⟨_, hdoes.of_healthy hhealthy⟩
  case free =>
    have hsteps : c.run P = c.freeEntry := by rw [run, hverb]
    rw [hsteps] at hrun ⊢
    obtain ⟨id, hid, ⟨hfound, -⟩ | ⟨-, hentry, -⟩⟩ := (freeEntry_eq_ok h.sited).mp hrun
    · cases hfound.symm.trans h.created
    · obtain ⟨n', hdrops⟩ := Machine.exists_drops (m := n) (h.plain id)
      exact ⟨n', (freeEntry_eq_ok h.sited').mpr ⟨id, hid, .inr ⟨h.created', hentry, hdrops⟩⟩⟩
  case stash =>
    have hsteps : c.run P = c.stashBlocks P := by rw [run, hverb]
    rw [hsteps] at hrun ⊢
    exact stashBlocks_again h hverb hrun hrepeat hbrief
  case move | copy | bsdiff | imgdiff =>
    have hmakes : c.makesTarget := by simp [makesTarget, hverb]
    rw [run_of_makesTarget hmakes] at hrun ⊢
    obtain ⟨r, hr, current, hread, -⟩ := upToDate_of_makeTarget h.live hrun
    by_cases hdate : UpToDate P r n
    · exact ⟨n, makeTarget_of_upToDate hr hdate⟩
    obtain ⟨s, hs, hroom, hfits⟩ := (hrepeat.made hmakes r hr).resolve_left hdate
    have hwithin := run_within h.live h.sited ((congrArg (outcome · m)
      (run_of_makesTarget (P := P) hmakes)).trans hrun)
    have hfaults : ∀ start, m₁.device.faults.read start = none →
        n.device.faults.read start = none := by
      rw [hhealthy.1]
      exact fun _ _ => rfl
    obtain ⟨before, hbefore⟩ := BlockSet.read?_of_size_le hfaults
      (by rw [hhealthy.2, hwithin.endless, h.endless]) hsize hread
    have hneeds : c.Needs P n r :=
      ⟨hr, before, hbefore, Bool.eq_false_iff.mpr fun hverify => hdate ⟨before, hbefore, hverify⟩⟩
    refine makeTarget_again h hhealthy hr hrun hsize hneeds hs hroom hfits
      (fun hkeeps => hbrief _ _ (.source hmakes hneeds hs hkeeps)) fun s' hneeds' hs' => ?_
    -- both sources have the digest that the command names
    obtain ⟨hverify, hwhole⟩ := source_verified hs h.sited'
    obtain ⟨hverify', hwhole'⟩ := source_verified hs' h.sited
    exact Checksum.eq_of_verify hfree hverify' hverify hwhole' hwhole
      (.inl ⟨r, hr, .inl ⟨s', hneeds', hs', rfl⟩⟩) (.inr ⟨r, hr, .inl ⟨s, hneeds, hs, rfl⟩⟩)

end Command

end BlockUpdate
