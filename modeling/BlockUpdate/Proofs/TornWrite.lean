import BlockUpdate.Proofs.Following
import BlockUpdate.Proofs.UniformCommands

/-!
# Writes that were torn

A move or a patch that is interrupted while it writes may leave anything in its target. Done again,
it finds its source where it was, or in the stash, and leaves what it would have left at once.

- `Command.AboutToWrite`: where a command stands before the first byte of its target.
- `Machine.Torn`: what an interruption leaves of a machine.
- **`Command.source_torn`**: the source is found again.
- **`Command.makeTarget_torn`**: the target is made again.
- **`Command.execute_torn`**: the same of the whole command.
-/

namespace BlockUpdate

open Bytes (uniform)

/-! ## What an interruption leaves -/

/-- A machine that finds the files that another left, and a device that differs from the other one
in some region at most. -/
structure Machine.Torn (region : Nat → Prop) (m n : Machine) : Prop where
  canWrite : n.canWrite = true
  patchData : n.patchData = m.patchData
  base : n.stash.base = m.stash.base
  files : n.files = m.files
  healthy : n.device.Healthy
  discards : n.device.discards = m.device.discards
  size : n.device.image.size = m.device.image.size
  outside : ∀ i, ¬ region i → n.device.image.byte i = m.device.image.byte i

namespace Machine.Torn

variable {region : Nat → Prop} {place : Place} {m m' n : Machine}

theorem sited (h : Torn region m n) (hm : m.stash.Sited m.files place) :
    n.stash.Sited n.files place := by
  rw [h.files]
  exact hm.of_base h.base

/-- Loading an entry is the same. -/
theorem load? (h : Torn region m n) (hm : m.stash.Sited m.files place) (id : String) (size : Nat) :
    n.stash.load? n.files id size = m.stash.load? m.files id size :=
  Stash.load?_congr hm (h.sited hm) (by rw [h.files]) size

theorem contains (h : Torn region m n) (hm : m.stash.Sited m.files place) (id : String) :
    n.stash.contains n.files id = m.stash.contains m.files id := by
  rw [Bool.eq_iff_iff, Stash.contains_iff (h.sited hm), Stash.contains_iff hm, h.files]

theorem entrySize? (h : Torn region m n) (hm : m.stash.Sited m.files place) (id : String) :
    n.stash.entrySize? n.files id = m.stash.entrySize? m.files id := by
  refine Option.ext fun size => ?_
  rw [Stash.entrySize?_eq_some (h.sited hm), Stash.entrySize?_eq_some hm, h.files]

/-- **Writes that fill the region** leave the same. -/
theorem sameReads (h : Torn region m n) (hm : m.device.Healthy) {ws : List Write}
    (hfill : ∀ i, region i → Write.Covered ws i) :
    (m.wrote ws).device.SameReads (n.wrote ws).device := by
  refine ⟨?_, h.healthy.2.trans hm.2.symm, h.healthy.1.trans hm.1.symm, h.discards⟩
  show (n.device.after ws).image = (m.device.after ws).image
  rw [Device.after_image, Device.after_image]
  refine Bytes.ext_byte (by rw [Bytes.size_overwrite, Bytes.size_overwrite, h.size]) fun i => ?_
  refine Bytes.byte_overwrite_congr ws ?_
  by_cases hi : region i
  · exact .inl (hfill i hi)
  · exact .inr (h.outside i hi)

/-- An entry is dropped by both. -/
theorem drops (h : Torn region m n) (hm : m.stash.Sited m.files place) {id : String}
    (hdrops : m.Drops place id m') : ∃ n', n.Drops place id n' ∧ n'.device = n.device := by
  rcases hdrops with ⟨hnone, -⟩ | ⟨size, hsize, hdir, -⟩
  · exact ⟨n, .inl ⟨(h.entrySize? hm id).trans hnone, rfl⟩, rfl⟩
  · exact ⟨_, .inr ⟨size, (h.entrySize? hm id).trans hsize, by rw [h.files]; exact hdir, rfl⟩, rfl⟩

end Machine.Torn

namespace Source

/-- The blocks of the device that a source was read from. -/
theorem device_of_load {c : Command} {position : Nat} {d : Device} {s : Stash} {t : FileTree}
    {src : Source} (h : load c position d s t = .ok src) {first : String} {range : BlockSet}
    (hfirst : c.arg (position + 1) = .ok first) (hrange : blockSetOf first = .ok range) :
    src.device = some range := by
  obtain ⟨blocks, first', -, hfirst', hsrc⟩ := load_eq_ok.mp h
  rw [hfirst] at hfirst'
  obtain rfl := Except.ok.inj hfirst'
  rcases hsrc with ⟨rfl, -⟩ | ⟨-, range', _, _, rfl, hrange', -⟩
  · cases hrange
  · rw [hrange] at hrange'
    rw [Except.ok.inj hrange']

end Source

namespace Command

variable {P : Primitives} {c : Command} {place : Place} {m m' m₁ n : Machine} {r : Recipe}
  {s : Source}

/-- A command has loaded its source and kept what it needs, and writes the first byte of its target
next. -/
structure AboutToWrite (P : Primitives) (c : Command) (m : Machine) (r : Recipe) (s : Source)
    (m₁ : Machine) : Prop where
  needs : c.Needs P m r
  source : c.source P r m = .ok s
  keep : outcome (keepSource r s) m = (.ok (), m₁)

/-- An entry that has the name of the source is the source. -/
def EntryIsSource (P : Primitives) (r : Recipe) (s : Source) (m : Machine) : Prop :=
  m.stash.contains m.files r.sourceHash = true →
    ∃ data, m.stash.load? m.files r.sourceHash (s.blocks * blockSize) = .ok (some data) ∧
      Checksum.verify P data s.blocks r.sourceHash = true

/-- The pieces that have the name of the source go to locations inside it. -/
def PiecesFit (c : Command) (r : Recipe) (s : Source) : Prop :=
  ∀ piece ∈ Source.pieces c r.sourcePosition, ∀ text locations,
    Blank.splitFirst? ':' piece = some (r.sourceHash, text) →
    Source.blockSetOf text = .ok locations →
    ∀ q ∈ locations.ranges, q.byteStart + q.byteLength ≤ s.blocks * blockSize

/-- What a command digests when it looks for its target and its source in a machine. -/
def Digests (c : Command) (m : Machine) (data : Bytes) : Prop :=
  ∃ r, c.recipe = .ok r ∧ (r.target.read? m.device = some data ∨
    ∃ s, Source.load c r.sourcePosition m.device m.stash m.files = .ok s ∧
      (s.data = data ∨
        m.stash.load? m.files r.sourceHash (s.blocks * blockSize) = .ok (some data)))

/-! ## Before the first byte -/

/-- Keeping a source changes the stash and nothing else. -/
theorem keepSource_within (hsited : m.stash.Sited m.files place)
    (hkeep : outcome (keepSource r s) m = (.ok (), m₁)) :
    m₁.device = m.device ∧ m₁.patchData = m.patchData ∧ m₁.stash.Sited m₁.files place := by
  rcases (keepSource_eq_ok hsited).mp hkeep with ⟨-, -, hstorable, rfl⟩ | ⟨-, rfl⟩
  · exact ⟨rfl, rfl, (Machine.within_keeping (fun _ => False) hstorable _ _).sited hsited⟩
  · exact ⟨rfl, rfl, hsited⟩

theorem AboutToWrite.device (h : AboutToWrite P c m r s m₁) (hsited : m.stash.Sited m.files place) :
    m₁.device = m.device :=
  (keepSource_within hsited h.keep).1

theorem AboutToWrite.sited (h : AboutToWrite P c m r s m₁) (hsited : m.stash.Sited m.files place) :
    m₁.stash.Sited m₁.files place :=
  (keepSource_within hsited h.keep).2.2

/-- The source that a command works from was loaded, or something of its size was. -/
theorem AboutToWrite.loaded (h : AboutToWrite P c m r s m₁) :
    ∃ data, Source.load c r.sourcePosition m.device m.stash m.files = .ok { s with data } ∧
      (s.data = data ∨
        m.stash.load? m.files r.sourceHash (s.blocks * blockSize) = .ok (some s.data)) := by
  obtain ⟨found, hload, ⟨-, rfl⟩ | ⟨-, data, hrecover, -, rfl⟩⟩ := source_eq_ok.mp h.source
  · exact ⟨_, hload, .inl rfl⟩
  · exact ⟨found.data, hload, .inr hrecover⟩

theorem AboutToWrite.digests (h : AboutToWrite P c m r s m₁) : c.Digests m s.data := by
  obtain ⟨data, hload, hdata⟩ := h.loaded
  exact ⟨r, h.needs.1, .inr ⟨_, hload, hdata.imp Eq.symm id⟩⟩

/-- **A source that is about to be overwritten** is in the stash. -/
theorem AboutToWrite.recoverable (h : AboutToWrite P c m r s m₁)
    (hsited : m.stash.Sited m.files place) (hentry : EntryIsSource P r s m) {set : BlockSet}
    (hset : s.device = some set) (hoverlap : set.overlaps r.target = true) :
    m₁.stash.contains m₁.files r.sourceHash = true ∧ ∃ data,
      m₁.stash.load? m₁.files r.sourceHash (s.blocks * blockSize) = .ok (some data) ∧
      Checksum.verify P data s.blocks r.sourceHash = true := by
  have hsited₁ := h.sited hsited
  obtain ⟨hverify, hsize⟩ := source_verified h.source hsited
  rcases (keepSource_eq_ok hsited).mp h.keep with ⟨-, -, hstorable, rfl⟩ | ⟨hnot, rfl⟩
  · have hstored : (m.keeping place r.sourceHash s.blocks s.data).files.get?
        (place ++ [r.sourceHash]) = some (.file s.data) := by
      show (Stash.stored _ _ _ _).get? _ = _
      rw [Stash.get?_stored, if_pos rfl]
    exact ⟨(Stash.contains_iff hsited₁).mpr ⟨hstorable.isEntry, _, hstored⟩, s.data,
      (Stash.load?_eq_some hsited₁).mpr ⟨hstorable.isEntry, hstored, hsize⟩, hverify⟩
  · have hcontains : m₁.stash.contains m₁.files r.sourceHash = true := by
      rw [← Bool.not_eq_false]
      exact fun hfalse => hnot ⟨set, hset, hoverlap, hfalse⟩
    exact ⟨hcontains, hentry hcontains⟩

/-- **What a command keeps** changes what a piece loads only if it has the name of the source. -/
theorem AboutToWrite.load?_cases (h : AboutToWrite P c m r s m₁)
    (hsited : m.stash.Sited m.files place) (id : String) (size : Nat) :
    m₁.stash.load? m₁.files id size = m.stash.load? m.files id size ∨
      id = r.sourceHash ∧ ∃ found, m₁.stash.load? m₁.files id size = .ok found ∧
        ∀ data, found = some data → data.size = size := by
  have hsited₁ := h.sited hsited
  rcases (keepSource_eq_ok hsited).mp h.keep with ⟨-, -, hstorable, rfl⟩ | ⟨-, rfl⟩
  · by_cases hid : id = r.sourceHash
    · rw [hid]
      have hfile : (m.keeping place r.sourceHash s.blocks s.data).files.get?
          (place ++ [r.sourceHash]) = some (.file s.data) := by
        show (Stash.stored _ _ _ _).get? _ = _
        rw [Stash.get?_stored, if_pos rfl]
      refine .inr ⟨rfl, _, Stash.load?_of_file hsited₁ hstorable.isEntry hfile size, ?_⟩
      intro data hdata
      split_ifs at hdata with hsize
      exact Option.some.inj hdata ▸ hsize
    · exact .inl (Stash.load?_stored_of_ne hsited hstorable _ hid size)
  · exact .inl rfl

/-! ## The source -/

section Torn

variable (habout : AboutToWrite P c m r s m₁) (hsited : m.stash.Sited m.files place)
  (hhealthy : m.device.Healthy) (htorn : m₁.Torn r.target.HasByte n)

include habout hsited htorn

/-- A source that the target does not overlap is loaded as before. -/
theorem source_torn_of_not_overlaps (hhealthy : m.device.Healthy)
    (hnot : ∀ set, s.device = some set → set.overlaps r.target = false) :
    c.source P r n = .ok s := by
  obtain ⟨data, hload, -⟩ := habout.loaded
  obtain rfl : m₁ = m := by
    rcases (keepSource_eq_ok hsited).mp habout.keep with ⟨⟨set, hset, hoverlap, -⟩, -⟩ | ⟨-, rfl⟩
    · rw [hnot set hset] at hoverlap
      cases hoverlap
    · rfl
  obtain ⟨found, hfound, hsource⟩ := source_eq_ok.mp habout.source
  obtain rfl : found = { s with data } := by
    rw [hload] at hfound
    exact (Except.ok.inj hfound).symm
  refine source_eq_ok.mpr ⟨{ s with data }, ?_, ?_⟩
  · refine Source.load_congr (fun first range hfirst hrange => ?_)
      (fun piece _ id text _ size => htorn.load? hsited id size) hload
    refine BlockSet.readInto_congr hhealthy htorn.healthy htorn.size fun i hi => ?_
    exact htorn.outside i
      (BlockSet.not_hasByte_of_overlaps_eq_false (hnot range (Source.device_of_load hload hfirst hrange)) hi)
  · rw [htorn.load? hsited]
    exact hsource

/-- A source that the target overlaps can still be put together, whatever it contains. -/
theorem exists_load_torn (hpieces : PiecesFit c r s) :
    ∃ data, Source.load c r.sourcePosition n.device n.stash n.files = .ok { s with data } := by
  obtain ⟨data, hload, -⟩ := habout.loaded
  refine Source.load_elsewhere ?_ hload n.device
  intro piece hmem id text locations hsplit hset
  rw [htorn.load? (habout.sited hsited)]
  rcases habout.load?_cases hsited id locations.byteLength with hsame | ⟨rfl, hfound⟩
  · exact .inl hsame
  · exact .inr ⟨hfound, hpieces piece hmem text locations hsplit hset⟩

/-- **The source is found again**, where it was or in the stash. -/
theorem source_torn (hhealthy : m.device.Healthy) (hentry : EntryIsSource P r s m)
    (hpieces : PiecesFit c r s)
    (hfree : CollisionFree P fun data => c.Digests m data ∨ c.Digests n data) :
    c.source P r n = .ok s := by
  by_cases hoverlap : ∃ set, s.device = some set ∧ set.overlaps r.target = true
  case neg =>
    refine source_torn_of_not_overlaps habout hsited htorn hhealthy fun set hset => ?_
    exact Bool.eq_false_iff.mpr fun htrue => hoverlap ⟨set, hset, htrue⟩
  case pos =>
  obtain ⟨set, hset, hoverlap⟩ := hoverlap
  obtain ⟨hverify, hsize⟩ := source_verified habout.source hsited
  obtain ⟨data, hload⟩ := exists_load_torn habout hsited htorn hpieces
  -- whatever passes the check is the source
  have hsame : ∀ found : Bytes, Checksum.verify P found s.blocks r.sourceHash = true →
      found.size = s.blocks * blockSize → c.Digests n found → found = s.data :=
    fun found hfound hfoundSize hdigests =>
      Checksum.eq_of_verify hfree hfound hverify hfoundSize hsize (.inr hdigests)
        (.inl habout.digests)
  refine source_eq_ok.mpr ⟨{ s with data }, hload, ?_⟩
  by_cases hdata : Checksum.verify P data s.blocks r.sourceHash = true
  · refine .inl ⟨hdata, ?_⟩
    rw [hsame data hdata (Source.size_load hload) ⟨r, habout.needs.1, .inr ⟨_, hload, .inl rfl⟩⟩]
  · obtain ⟨-, found, hrecover, hfound⟩ := habout.recoverable hsited hentry hset hoverlap
    rw [← htorn.load? (habout.sited hsited)] at hrecover
    have hfoundSize := ((Stash.load?_eq_some (htorn.sited (habout.sited hsited))).mp hrecover).2.2
    refine .inr ⟨Bool.eq_false_iff.mpr hdata, found, hrecover, hfound, ?_⟩
    rw [hsame found hfound hfoundSize ⟨r, habout.needs.1, .inr ⟨_, hload, .inr hrecover⟩⟩]

/-- Nothing is kept a second time. -/
theorem not_keeps_torn (hentry : EntryIsSource P r s m) : ¬ Keeps r s n := by
  rintro ⟨set, hset, hoverlap, hcontains⟩
  rw [htorn.contains (habout.sited hsited),
    (habout.recoverable hsited hentry hset hoverlap).1] at hcontains
  cases hcontains

/-! ## The target -/

/-- **The target is made again** from its source. -/
theorem applyRecipe_torn (hhealthy : m.device.Healthy) (hentry : EntryIsSource P r s m)
    (hrun : outcome (applyRecipe P c r s) m = (.ok (), m')) :
    ∃ n', outcome (applyRecipe P c r s) n = (.ok (), n') ∧
      n'.device.image = m'.device.image := by
  have hsound := sound_of_blockSet (blockSet_of_recipe habout.needs.1)
  have hsited₁ := habout.sited hsited
  obtain ⟨m₂, m₃, hkeep, hwrites, hverify, hdrop⟩ := applyRecipe_eq_ok.mp hrun
  obtain rfl : m₁ = m₂ := by
    rw [habout.keep] at hkeep
    exact congrArg Prod.snd hkeep
  obtain ⟨ws, hfill, rfl, hdoes⟩ := writeTarget_eq_ok hsound hwrites
  have hdrops := (dropSource_eq_ok (m := m₁.wrote ws) hsited₁).mp hdrop
  have hhealthy₁ : m₁.device.Healthy := by
    rw [habout.device hsited]
    exact hhealthy
  have hreads := htorn.sameReads hhealthy₁ fun i hi => (hfill i).mpr hi
  have hleft : (m₁.wrote ws).Torn r.target.HasByte (n.wrote ws) :=
    { htorn with
      healthy := hreads.healthy ((Device.after_healthy _ _).mpr hhealthy₁)
      size := congrArg ByteArray.size hreads.image
      outside := fun i _ => congrArg (Bytes.byte · i) hreads.image }
  obtain ⟨n', hdrops', hdevice⟩ := hleft.drops hsited₁ hdrops
  refine ⟨n', applyRecipe_eq_ok.mpr ⟨n, n.wrote ws, ?_, ?_, ?_, ?_⟩, ?_⟩
  · exact (keepSource_eq_ok (htorn.sited hsited₁)).mpr
      (.inr ⟨not_keeps_torn habout hsited htorn hentry, rfl⟩)
  · exact (hdoes n htorn.discards htorn.patchData).of_healthy htorn.healthy
  · rw [BlockSet.readInto_sameReads hreads]
    exact hverify
  · exact (dropSource_eq_ok (hleft.sited hsited₁)).mpr hdrops'
  · rw [hdevice, hdrops.device, hreads.image]

/-- A target that a torn write left as it is wanted is that of the whole write. -/
theorem image_eq_of_upToDate (hlive : m.canWrite = true) (hhealthy : m.device.Healthy)
    (hrun : outcome (makeTarget P c) m = (.ok (), m')) (hdate : UpToDate P r n)
    (hwithin : Machine.Within (Stash.Below place) r.target.HasByte m m')
    (hfree : CollisionFree P fun data => c.Digests m' data ∨ c.Digests n data) :
    n.device.image = m'.device.image := by
  have hr := habout.needs.1
  have hsound := sound_of_blockSet (blockSet_of_recipe hr)
  obtain ⟨current, hread, hverify⟩ := hdate
  obtain ⟨r', hr', current', hread', hverify'⟩ := upToDate_of_makeTarget hlive hrun
  rw [hr] at hr'
  obtain rfl := Except.ok.inj hr'
  obtain rfl : current = current' := Checksum.eq_of_verify hfree hverify hverify'
    (BlockSet.size_of_read? hsound hread) (BlockSet.size_of_read? hsound hread')
    (.inr ⟨r, hr, .inl hread⟩) (.inl ⟨r, hr, .inl hread'⟩)
  have hdevice := habout.device hsited
  obtain ⟨-, before, hbefore, -⟩ := habout.needs
  refine Bytes.ext_byte ?_ fun i => ?_
  · rw [htorn.size, hdevice]
    exact (hwithin.size_eq fun i hi => BlockSet.lt_size_of_read? hhealthy.2 hbefore hi).symm
  · by_cases hi : r.target.HasByte i
    · exact BlockSet.byte_eq_of_read?_eq (hwithin.endless.trans hhealthy.2) htorn.healthy.2 hread'
        hread hi
    · rw [htorn.outside i hi, hdevice, hwithin.byte hi]

/-- **A move or a patch that was torn** is done again and leaves the same. -/
theorem makeTarget_torn (hlive : m.canWrite = true) (hhealthy : m.device.Healthy)
    (hentry : EntryIsSource P r s m) (hpieces : PiecesFit c r s)
    (hfree : CollisionFree P fun data => c.Digests m data ∨ c.Digests m' data ∨ c.Digests n data)
    (hrun : outcome (makeTarget P c) m = (.ok (), m')) :
    ∃ n', outcome (makeTarget P c) n = (.ok (), n') ∧ n'.device.image = m'.device.image := by
  obtain ⟨hr, before, hbefore, hold⟩ := habout.needs
  have hsound := sound_of_blockSet (blockSet_of_recipe hr)
  rcases (makeTarget_eq_ok hlive).mp hrun with ⟨r', hr', ⟨current, hread, hdate⟩, -⟩ |
    ⟨r', s', m₂, ⟨hr', -⟩, hs', happly, rfl⟩
  · rw [hr] at hr'
    obtain rfl := Except.ok.inj hr'
    rw [hbefore] at hread
    rw [← Option.some.inj hread, hold] at hdate
    cases hdate
  rw [hr] at hr'
  obtain rfl := Except.ok.inj hr'
  rw [habout.source] at hs'
  obtain rfl := Except.ok.inj hs'
  obtain ⟨current, hcurrent⟩ : ∃ current, r.target.read? n.device = some current := by
    refine BlockSet.read?_of_size_le ?_ ?_ (Nat.le_of_eq ?_) hbefore
    · rw [htorn.healthy.1]
      exact fun _ _ => rfl
    · exact htorn.healthy.2.trans hhealthy.2.symm
    · rw [htorn.size, habout.device hsited]
  by_cases hverify : Checksum.verify P current r.target.total r.targetHash = true
  · have hdate : UpToDate P r n := ⟨current, hcurrent, hverify⟩
    refine ⟨n, makeTarget_of_upToDate hr hdate, ?_⟩
    refine image_eq_of_upToDate habout hsited htorn hlive hhealthy hrun hdate
      ((within_applyRecipe hsited hsound happly).counted _) ?_
    exact fun a b ha hb => hfree a b (.inr ha) (.inr hb)
  · have hneeds : Needs P c n r := ⟨hr, current, hcurrent, Bool.eq_false_iff.mpr hverify⟩
    have hsource := source_torn habout hsited htorn hhealthy hentry hpieces
      fun a b ha hb => hfree a b (ha.imp_right .inr) (hb.imp_right .inr)
    obtain ⟨n₁, happly', himage⟩ := applyRecipe_torn habout hsited htorn hhealthy hentry happly
    refine ⟨{ n₁ with written := n₁.written + r.target.total }, ?_, himage⟩
    rw [makeTarget_of_needs htorn.canWrite hneeds hsource, outcome_bind_of_ok happly']
    rfl

end Torn

/-- **A command that was torn while it wrote its target** succeeds when it is executed again, and
leaves the image that it would have left at once. -/
theorem execute_torn (hmakes : c.makesTarget) (hwrite : m.canWrite = true)
    (hhealthy : m.device.Healthy) (hsited : m.stash.Sited m.files place)
    (hrun : (c.execute P).run m = (.success, m')) (habout : AboutToWrite P c m r s m₁)
    (htorn : m₁.Torn r.target.HasByte n) (hentry : EntryIsSource P r s m)
    (hpieces : PiecesFit c r s)
    (hfree : CollisionFree P fun data =>
      c.Digests m data ∨ c.Digests m' data ∨ c.Digests n data) :
    ∃ n', (c.execute P).run n = (.success, n') ∧ n'.device.image = m'.device.image := by
  rw [execute_eq_success, run_of_makesTarget hmakes] at hrun
  obtain ⟨n', hredo, himage⟩ :=
    makeTarget_torn habout hsited htorn hwrite hhealthy hentry hpieces hfree hrun
  exact ⟨n', by rw [execute_eq_success, run_of_makesTarget hmakes, hredo], himage⟩

/-! ## A shift by one block -/

section Shift

/-- A machine with an image of three blocks, and a stash. -/
def threeBlocks (entries : List (Place × Node)) (fill : List UInt8) : Machine where
  device := Device.file (uniform fill)
  files := ⟨(["s"], .directory) :: entries⟩
  stash := ⟨⟨["s"]⟩, true⟩
  header := ⟨4, 3, 0, 0⟩

/-- A move of the first two blocks by one. -/
def shift (rest : List String) : Command :=
  ⟨.move, Digest.name [0, 0] :: "2,1,3" :: "2" :: "2,0,2" :: rest, "", 0⟩

def shiftRecipe : Recipe := ⟨Digest.name [0, 0], Digest.name [0, 0], ⟨[⟨1, 2⟩], 2⟩, 2⟩

def shiftSource : Source := ⟨uniform [0, 0], 2, some ⟨[⟨0, 2⟩], 2⟩⟩

variable {entries : List (Place × Node)} {rest : List String}

theorem sited_threeBlocks (entries : List (Place × Node)) (fill : List UInt8) :
    (threeBlocks entries fill).stash.Sited (threeBlocks entries fill).files ["s"] :=
  ⟨⟨by simp only [threeBlocks]; cbv, rfl, rfl⟩, rfl, rfl⟩

theorem threeBlocks_fits : ([0, 0, 1] : List UInt8).length * blockSize < Device.offsetLimit := by
  decide

theorem recipe_shift : (shift rest).recipe = .ok shiftRecipe := rfl

theorem verify_shift {fill : List UInt8} (hfill : fill.length = 2) :
    Checksum.verify .tabled (uniform fill) 2 (Digest.name [0, 0]) = decide (fill = [0, 0]) :=
  Checksum.verify_uniform hfill

/-- The move is needed, and loads its source. -/
theorem needs_shift : Needs .tabled (shift rest) (threeBlocks entries [0, 0, 1]) shiftRecipe := by
  have hread : shiftRecipe.target.read? (threeBlocks entries [0, 0, 1]).device =
      some (uniform (BlockSet.pick [⟨1, 2⟩] [0, 0, 1])) :=
    BlockSet.read?_uniform ⟨rfl, rfl⟩ rfl threeBlocks_fits (by decide)
  exact ⟨recipe_shift, _, hread, verify_shift rfl⟩

theorem source_shift (hload : Source.load (shift rest) 2 (threeBlocks entries [0, 0, 1]).device
      (threeBlocks entries [0, 0, 1]).stash (threeBlocks entries [0, 0, 1]).files =
        .ok shiftSource) :
    (shift rest).source .tabled shiftRecipe (threeBlocks entries [0, 0, 1]) = .ok shiftSource :=
  source_eq_ok.mpr ⟨shiftSource, hload, .inl ⟨verify_shift rfl, rfl⟩⟩

/-- The move succeeds if it can keep its source. -/
theorem execute_shift {m₁ : Machine}
    (habout : AboutToWrite .tabled (shift rest) (threeBlocks entries [0, 0, 1]) shiftRecipe
      shiftSource m₁)
    (hfile : m₁.files.get? ["s", Digest.name [0, 0]] ≠ some .directory) :
    ∃ m', ((shift rest).execute .tabled).run (threeBlocks entries [0, 0, 1]) = (.success, m') := by
  have hsited := sited_threeBlocks entries [0, 0, 1]
  have hverify : Checksum.verify .tabled
      (uniform (BlockSet.pick [⟨1, 2⟩] (BlockSet.spread [⟨1, 2⟩] [0, 0] [0, 0, 1]))) 2 (Digest.name [0, 0]) =
        true := verify_shift rfl
  have hdata : shiftSource.data = uniform [0, 0] := rfl
  obtain ⟨m', hrun, -⟩ := applyRecipe_uniform (c := shift rest) ⟨rfl, rfl⟩ rfl threeBlocks_fits rfl
    recipe_shift (by decide) hdata (Nat.le_refl 2) habout.keep (habout.device hsited)
    (habout.sited hsited) hfile hverify
  refine ⟨{ m' with written := m'.written + 2 }, ?_⟩
  rw [execute_eq_success, run_of_makesTarget (.inl rfl),
    makeTarget_of_needs rfl habout.needs habout.source, outcome_bind_of_ok hrun]
  rfl

/-- What is left of the image when the write was torn. -/
theorem torn_threeBlocks {m₁ : Machine} (hlive : m₁.canWrite = true)
    (hdevice : m₁.device = Device.file (uniform [0, 0, 1])) :
    m₁.Torn shiftRecipe.target.HasByte { m₁ with device := Device.file (uniform [0, 1, 1]) } := by
  have hhealthy : (Device.file (uniform [0, 1, 1])).Healthy := ⟨rfl, rfl⟩
  refine ⟨hlive, rfl, rfl, rfl, hhealthy, ?_, ?_, fun i hi => ?_⟩
  · show none = m₁.device.discards
    rw [hdevice, Device.file]
  · rw [hdevice]
    show (uniform [0, 1, 1]).size = (uniform [0, 0, 1]).size
    rw [Bytes.size_uniform, Bytes.size_uniform]
    rfl
  · rw [hdevice]
    show (uniform [0, 1, 1]).byte i = (uniform [0, 0, 1]).byte i
    rw [Bytes.byte_uniform, Bytes.byte_uniform]
    rw [BlockSet.hasByte_iff_hasBlock] at hi
    generalize i / blockSize = block at hi ⊢
    have hout : block = 0 ∨ 3 ≤ block := by
      have : ¬ (1 ≤ block ∧ block < 3) := fun h =>
        hi ⟨⟨1, 2⟩, List.mem_singleton.mpr rfl, h⟩
      omega
    rcases hout with rfl | h
    · rfl
    · rw [List.getD_eq_default _ _ h, List.getD_eq_default _ _ h]

/-- The move fails when it is done again and does not find its source. -/
theorem not_execute_shift {n : Machine} (hlive : n.canWrite = true)
    (hdevice : n.device = Device.file (uniform [0, 1, 1]))
    (hsource : ∀ s, (shift rest).source .tabled shiftRecipe n ≠ .ok s) (n' : Machine) :
    ((shift rest).execute .tabled).run n ≠ (.success, n') := by
  intro hrun
  rw [execute_eq_success, run_of_makesTarget (.inl rfl)] at hrun
  rcases (makeTarget_eq_ok hlive).mp hrun with ⟨r, hr, ⟨current, hread, hverify⟩, -⟩ |
    ⟨r, s, -, ⟨hr, -⟩, hs, -⟩
  · rw [recipe_shift] at hr
    obtain rfl := Except.ok.inj hr
    have hcurrent : shiftRecipe.target.read? n.device =
        some (uniform (BlockSet.pick [⟨1, 2⟩] [0, 1, 1])) := by
      rw [hdevice]
      exact BlockSet.read?_uniform ⟨rfl, rfl⟩ rfl (by decide) (by decide)
    rw [hcurrent] at hread
    rw [← Option.some.inj hread] at hverify
    exact absurd ((verify_shift rfl).symm.trans hverify) (by decide)
  · rw [recipe_shift] at hr
    obtain rfl := Except.ok.inj hr
    exact hsource s hs

/-- The source of the move, in its plain form. -/
theorem load_shift {m : Machine} {fill : List UInt8} (hlength : fill.length = 3)
    (hdevice : m.device = Device.file (uniform fill)) :
    Source.load (shift []) 2 m.device m.stash m.files =
      .ok ⟨uniform (BlockSet.pick [⟨0, 2⟩] fill), 2, some ⟨[⟨0, 2⟩], 2⟩⟩ := by
  have himage : m.device.image = uniform fill := by rw [hdevice]; rfl
  have hhealthy : m.device.Healthy := by rw [hdevice]; exact ⟨rfl, rfl⟩
  have hlimit : fill.length * blockSize < Device.offsetLimit := by rw [hlength]; decide
  have hfits : ∀ q ∈ ([⟨0, 2⟩] : List BlockRange), q.stop ≤ fill.length := by
    rw [hlength]
    decide
  have hrange : Source.blockSetOf "2,0,2" = .ok ⟨[⟨0, 2⟩], 2⟩ := rfl
  have hblocks : (shift []).number 2 = .ok 2 := rfl
  exact load_uniform (c := shift []) hhealthy ⟨[⟨0, 2⟩], 2⟩ himage hlimit hblocks rfl (by decide)
    hrange rfl hfits

theorem storable_threeBlocks :
    Stash.Storable (threeBlocks [] [0, 0, 1]).files ["s"] (Digest.name [0, 0]) :=
  ⟨by decide, by decide, by decide, by decide⟩

/-- The move keeps its source in a stash that is empty. -/
theorem aboutToWrite_shift (hload : Source.load (shift rest) 2 (threeBlocks [] [0, 0, 1]).device
      (threeBlocks [] [0, 0, 1]).stash (threeBlocks [] [0, 0, 1]).files = .ok shiftSource) :
    AboutToWrite .tabled (shift rest) (threeBlocks [] [0, 0, 1]) shiftRecipe shiftSource
      ((threeBlocks [] [0, 0, 1]).keeping ["s"] (Digest.name [0, 0]) 2 (uniform [0, 0])) := by
  have hsited := sited_threeBlocks [] [0, 0, 1]
  have hnone : (threeBlocks [] [0, 0, 1]).files.get? ["s", Digest.name [0, 0]] = none := by decide
  have hkeeps : Keeps shiftRecipe shiftSource (threeBlocks [] [0, 0, 1]) := by
    refine ⟨_, rfl, by decide, Bool.eq_false_iff.mpr fun hcontains => ?_⟩
    obtain ⟨-, data, hdata⟩ := (Stash.contains_iff hsited).mp hcontains
    cases hnone.symm.trans hdata
  exact ⟨needs_shift, source_shift hload, (keepSource_eq_ok hsited).mpr
    (.inl ⟨hkeeps, ⟨rfl, rfl⟩, storable_threeBlocks, rfl⟩)⟩

theorem get?_keeping_threeBlocks :
    ((threeBlocks [] [0, 0, 1]).keeping ["s"] (Digest.name [0, 0]) 2 (uniform [0, 0])).files.get?
      ["s", Digest.name [0, 0]] = some (.file (uniform [0, 0])) := by
  show (Stash.stored _ _ _ _).get? (["s"] ++ [Digest.name [0, 0]]) = _
  rw [Stash.get?_stored, if_pos rfl]

/-- A shift that was torn is done again. -/
theorem execute_torn_shift :
    ∃ m₁ m' n n', ((shift []).execute .tabled).run (threeBlocks [] [0, 0, 1]) = (.success, m') ∧
      AboutToWrite .tabled (shift []) (threeBlocks [] [0, 0, 1]) shiftRecipe shiftSource m₁ ∧
      m₁.Torn shiftRecipe.target.HasByte n ∧ n.device.image = uniform [0, 1, 1] ∧
      ((shift []).execute .tabled).run n = (.success, n') ∧ n'.device.image = m'.device.image := by
  have hsited := sited_threeBlocks [] [0, 0, 1]
  have hload := load_shift (m := threeBlocks [] [0, 0, 1]) rfl rfl
  have habout := aboutToWrite_shift hload
  have hfile := get?_keeping_threeBlocks
  obtain ⟨m', hrun⟩ := execute_shift habout (by rw [hfile]; exact nofun)
  let m₁ := (threeBlocks [] [0, 0, 1]).keeping ["s"] (Digest.name [0, 0]) 2 (uniform [0, 0])
  have htorn := @torn_threeBlocks m₁ rfl rfl
  have hentry : EntryIsSource .tabled shiftRecipe shiftSource (threeBlocks [] [0, 0, 1]) := by
    intro hcontains
    obtain ⟨-, data, hdata⟩ := (Stash.contains_iff hsited).mp hcontains
    have hnone : (threeBlocks [] [0, 0, 1]).files.get? ["s", Digest.name [0, 0]] = none := by decide
    cases hnone.symm.trans hdata
  have hpieces : PiecesFit (shift []) shiftRecipe shiftSource := by
    intro piece hmem
    cases hmem
  obtain ⟨n', hredo, himage⟩ := execute_torn (.inl rfl) rfl ⟨rfl, rfl⟩ hsited hrun habout htorn
    hentry hpieces (collisionFree_tabled _)
  exact ⟨_, m', _, n', hrun, habout, htorn, rfl, hredo, himage⟩

/-! ## Where a torn write stays torn -/

/-- A command whose write was torn fails when it is executed again. -/
def StaysTorn (P : Primitives) (c : Command) (m : Machine) : Prop :=
  c.makesTarget ∧ m.canWrite = true ∧ m.device.Healthy ∧
    ∃ place r s m₁ m' n, m.stash.Sited m.files place ∧ (c.execute P).run m = (.success, m') ∧
      AboutToWrite P c m r s m₁ ∧ m₁.Torn r.target.HasByte n ∧
      ∀ n', (c.execute P).run n ≠ (.success, n')

/-- A stash in which an empty file has the name of the source. -/
def foreign : List (Place × Node) := [(["s", Digest.name [0, 0]], .file ByteArray.empty)]

/-- Under the name of the source there may be something else, which nothing notices until it is
needed. -/
theorem staysTorn_of_foreign : StaysTorn .tabled (shift []) (threeBlocks foreign [0, 0, 1]) := by
  have hsited := sited_threeBlocks foreign [0, 0, 1]
  have hfile : (threeBlocks foreign [0, 0, 1]).files.get? ["s", Digest.name [0, 0]] =
      some (.file ByteArray.empty) := by decide
  have hload := load_shift (m := threeBlocks foreign [0, 0, 1]) rfl rfl
  have hkeep : outcome (keepSource shiftRecipe shiftSource) (threeBlocks foreign [0, 0, 1]) =
      (.ok (), threeBlocks foreign [0, 0, 1]) := by
    refine (keepSource_eq_ok hsited).mpr (.inr ⟨?_, rfl⟩)
    rintro ⟨set, -, -, hcontains⟩
    have hheld := (Stash.contains_iff hsited).mpr ⟨⟨by decide, by decide⟩, _, hfile⟩
    exact Bool.false_ne_true (hcontains.symm.trans hheld)
  have habout : AboutToWrite .tabled (shift []) _ shiftRecipe shiftSource _ :=
    ⟨needs_shift, source_shift hload, hkeep⟩
  obtain ⟨m', hrun⟩ := execute_shift habout (by rw [hfile]; exact nofun)
  refine ⟨.inl rfl, rfl, ⟨rfl, rfl⟩, _, _, _, _, m', _, hsited, hrun, habout,
    torn_threeBlocks rfl rfl, not_execute_shift rfl rfl fun s hs => ?_⟩
  -- what is there is no source, and neither is what has its name
  obtain ⟨found, hfound, hsource⟩ := source_eq_ok.mp hs
  obtain rfl := Except.ok.inj ((load_shift rfl rfl).symm.trans hfound)
  rcases hsource with ⟨hverify, -⟩ | ⟨-, data, hrecover, -⟩
  · exact absurd ((verify_shift rfl).symm.trans hverify) (by decide)
  · obtain ⟨-, hdata, hsize⟩ := (Stash.load?_eq_some hsited).mp hrecover
    obtain rfl : ByteArray.empty = data := by
      have hnode := hfile.symm.trans hdata
      cases hnode
      rfl
    exact absurd hsize (by decide)

/-- The rest of a source that also takes a piece of its own name, to locations behind it. -/
def wide : List String := ["2,0,2", "9f1dcbc35c350d6027f98be0f5c8b43b42ca52b7604459c0c42be3aa88913d47:2,5,7"]

theorem load_wide : Source.load (shift wide) 2 (threeBlocks [] [0, 0, 1]).device
    (threeBlocks [] [0, 0, 1]).stash (threeBlocks [] [0, 0, 1]).files = .ok shiftSource := by
  have hsited := sited_threeBlocks [] [0, 0, 1]
  have hread : (⟨[⟨0, 2⟩], 2⟩ : BlockSet).read? (threeBlocks [] [0, 0, 1]).device =
      some (uniform (BlockSet.pick [⟨0, 2⟩] [0, 0, 1])) :=
    BlockSet.read?_uniform ⟨rfl, rfl⟩ rfl threeBlocks_fits (by decide)
  have hrange : Source.blockSetOf "2,0,2" = .ok ⟨[⟨0, 2⟩], 2⟩ := rfl
  have hfits : ∀ r ∈ ([⟨0, 2⟩] : List BlockRange), r.stop ≤ ([0, 0] : List UInt8).length := by decide
  have hstart := Source.addDevice_uniform (c := shift wide)
    (BlockSet.readInto_of_read? (Source.blockSetOf_eq_ok hrange) hread) hrange rfl (Nat.le_refl 2)
    hfits
  have hmissing : (threeBlocks [] [0, 0, 1]).stash.load? (threeBlocks [] [0, 0, 1]).files (Digest.name [0, 0])
      (2 * blockSize) = .ok none :=
    Stash.load?_of_get?_eq_none hsited ⟨by decide, by decide⟩ (by decide) _
  refine Source.load_eq_ok.mpr ⟨2, "2,0,2", rfl, rfl, .inr ⟨by decide, ⟨[⟨0, 2⟩], 2⟩,
    (uniform [0, 0], 2), _, rfl, hrange, Nat.le_refl _, ?_, ?_⟩⟩
  · rw [Bytes.zeros_eq_uniform]
    exact hstart
  · have hpiece : Source.addPiece (shift wide) (threeBlocks [] [0, 0, 1]).stash
        (threeBlocks [] [0, 0, 1]).files (uniform [0, 0]) "9f1dcbc35c350d6027f98be0f5c8b43b42ca52b7604459c0c42be3aa88913d47:2,5,7" = .ok (uniform [0, 0]) :=
      Source.addPiece_eq_ok.mpr ⟨Digest.name [0, 0], "2,5,7", ⟨[⟨5, 2⟩], 2⟩, none, rfl, rfl, hmissing, rfl⟩
    exact except_bind_eq_ok.mpr ⟨_, hpiece, rfl⟩

/-- A piece may be passed over as long as it is missing, and is refused when it is there. -/
theorem staysTorn_of_wide : StaysTorn .tabled (shift wide) (threeBlocks [] [0, 0, 1]) := by
  have hsited := sited_threeBlocks [] [0, 0, 1]
  have habout := aboutToWrite_shift load_wide
  have hfile := get?_keeping_threeBlocks
  obtain ⟨m', hrun⟩ := execute_shift habout (by rw [hfile]; exact nofun)
  refine ⟨.inl rfl, rfl, ⟨rfl, rfl⟩, _, _, _, _, m', _, hsited, hrun, habout,
    torn_threeBlocks rfl rfl, not_execute_shift rfl rfl fun s hs => ?_⟩
  -- the piece is there now, and its locations are not
  obtain ⟨found, hfound, -⟩ := source_eq_ok.mp hs
  obtain ⟨blocks, first, hblocks, hfirst, ⟨hdash, -⟩ | ⟨-, range, start, data, -, hrange, htotal,
    hstart, hpieces⟩⟩ := Source.load_eq_ok.mp hfound
  · have : "2,0,2" = first := Except.ok.inj hfirst
    exact absurd (this.trans hdash) (by decide)
  obtain rfl : 2 = blocks := Except.ok.inj hblocks
  obtain ⟨next, hpiece, -⟩ := except_bind_eq_ok.mp hpieces
  obtain ⟨id, text, locations, entry, hsplit, hset, hload, hentry⟩ := Source.addPiece_eq_ok.mp hpiece
  obtain ⟨rfl, rfl⟩ : Digest.name [0, 0] = id ∧ "2,5,7" = text := Prod.ext_iff.mp (Option.some.inj hsplit)
  obtain rfl : (⟨[⟨5, 2⟩], 2⟩ : BlockSet) = locations := Except.ok.inj hset
  have hsited₁ := habout.sited hsited
  have hentrySize : (uniform [0, 0]).size = 2 * blockSize := Bytes.size_uniform _
  have hthere := Stash.load?_of_file hsited₁ storable_threeBlocks.isEntry hfile (2 * blockSize)
  rw [if_pos hentrySize] at hthere
  obtain rfl := Except.ok.inj (hthere.symm.trans hload)
  obtain ⟨hroom, -⟩ := Source.scatterRanges_cons_eq_ok.mp (Source.scatter_eq_ok.mp hentry)
  rw [Source.size_start (Source.blockSetOf_eq_ok hrange) htotal hstart] at hroom
  exact absurd hroom (by decide)

/-- **A torn write may stay torn** if the stash holds something else under the name of the source,
or if a piece of that name goes to locations behind the source. -/
theorem staysTorn_shift : (∀ involved, CollisionFree .tabled involved) ∧
    StaysTorn .tabled (shift []) (threeBlocks foreign [0, 0, 1]) ∧
    StaysTorn .tabled (shift wide) (threeBlocks [] [0, 0, 1]) :=
  ⟨collisionFree_tabled, staysTorn_of_foreign, staysTorn_of_wide⟩

end Shift

end Command

end BlockUpdate
