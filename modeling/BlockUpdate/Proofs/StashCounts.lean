import BlockUpdate.Proofs.ContentAddressing
import BlockUpdate.Proofs.Distinct

/-!
# What is counted is what is there

A session counts an entry when it stores it and when it removes it, and never looks at the directory
again. The counters are right between any two commands, because no entry is ever stored over another
one: a name says what an entry holds, so what would be stored under a name in use is there already.

- **`Stash.held_cons`**, `held_congr`, `Shrunk.held_le`: what is held, one file more or less.
- `Machine.Balanced`: the counters say what the stash holds.
- **`Command.run_balanced`**: a command that succeeds keeps them so.
- `Machine.InLimits`: the stash holds no more than the header allows.
- `Command.Storing`: the machines that a command passes through while it stores an entry.
- **`Command.run_inLimits`**, **`Storing.inLimits`**: the limits hold however a command ends, and
  within it.
- **`Session.stash_counted`**: both, for every session.
-/

namespace BlockUpdate

namespace Stash

variable {s : Stash} {t t' : FileTree} {place : Place} {id : String} {data : Bytes}

/-! ## What is held -/

/-- The blocks of a file. -/
theorem entryBlocks_of_file (h : s.Sited t place) (hid : Entry id)
    (hfile : t.get? (place ++ [id]) = some (.file data)) :
    s.entryBlocks t id = data.size / blockSize := by
  rw [entryBlocks, (entrySize?_eq_some h).mpr ⟨hid, .inl ⟨data, hfile, rfl⟩⟩, Option.getD_some]

/-- Where the same can be looked up, as much is held. -/
theorem held_congr (h : t.Distinct) (h' : t'.Distinct) (hs : s.Sited t place)
    (hs' : s.Sited t' place)
    (hsame : ∀ name, validId name = true →
      t'.get? (place ++ [name]) = t.get? (place ++ [name])) :
    (held t' place).length = (held t place).length ∧
      s.heldBlocks t' place = s.heldBlocks t place := by
  have hperm := held_perm h h' hsame
  refine ⟨hperm.length_eq, ?_⟩
  rw [heldBlocks, (hperm.map _).sum_nat, heldBlocks]
  refine congrArg List.sum (List.map_congr_left fun entry hentry => ?_)
  exact entryBlocks_congr hs hs' (hsame _ (mem_held.mp hentry).2)

/-- With one more file, one more entry is held, and its blocks. -/
theorem held_cons (h : t.Distinct) (h' : t'.Distinct) (hs : s.Sited t place)
    (hs' : s.Sited t' place) (hid : Entry id) (hnone : t.get? (place ++ [id]) = none)
    (hfile : t'.get? (place ++ [id]) = some (.file data))
    (hsame : ∀ name, validId name = true → name ≠ id →
      t'.get? (place ++ [name]) = t.get? (place ++ [name])) :
    (held t' place).length = (held t place).length + 1 ∧
      s.heldBlocks t' place = s.heldBlocks t place + data.size / blockSize := by
  have hperm := held_perm_cons h h' hid.1 hnone hfile hsame
  refine ⟨hperm.length_eq.trans (List.length_cons ..), ?_⟩
  rw [heldBlocks, (hperm.map _).sum_nat, List.map_cons, List.sum_cons,
    entryBlocks_of_file hs' hid hfile, Nat.add_comm, heldBlocks]
  refine congrArg (· + _) (congrArg List.sum (List.map_congr_left ?_))
  rintro ⟨name, found⟩ hentry
  obtain ⟨hget, hvalid⟩ := (mem_held_iff h).mp hentry
  refine entryBlocks_congr hs hs' (hsame _ hvalid ?_)
  rintro rfl
  rw [hnone] at hget
  cases hget

/-- Where nothing happened but that entries were removed, no more is held. -/
theorem Shrunk.held_le (h : Shrunk place t t') (hs : s.Sited t place) :
    (Stash.held t' place).length ≤ (Stash.held t place).length ∧
      s.heldBlocks t' place ≤ s.heldBlocks t place := by
  refine ⟨h.held.length_le, sum_entryBlocks_le h.held fun entry hentry => ?_⟩
  obtain ⟨hmem, hvalid⟩ := mem_held.mp (show (entry.1, entry.2) ∈ Stash.held t' place from hentry)
  refine entryBlocks_congr hs (h.toTouched.sited hs) ?_
  -- there is something of that name, so it is what it was
  rcases hfound : t'.get? (place ++ [entry.1]) with _ | data | _
  · exact absurd hfound (FileTree.get?_ne_none_of_mem hmem)
  · exact (h.entry _ data hvalid hfound).symm
  · exact ((h.directories _).mp hfound).symm

/-! ## The steps of storing -/

/-- **After any of its steps**, storing an entry has removed entries at most, or is done. -/
theorem storeSteps_take (h : s.Sited t place) (hid : validId id = true) (data : Bytes) (n : Nat) :
    let t' := (outcome (FileM.perform ((s.storeSteps id (s.base.join id) data).take n)) t).2
    Shrunk place t t' ∨ Storable t place id ∧ t' = stored t place id data := by
  have hplain := plainName_temporaryName hid
  have htemporary : (s.temporaryPath id).parts = s.base.parts ++ [temporaryName id] :=
    h.parts_join hplain
  rcases n with _ | n
  · exact .inl (refl_of (Shrunk place) t)
  -- if the preparation cannot be created, none of the steps is done
  by_cases hfits : (temporaryName id).utf8ByteSize ≤ FileTree.maxName ∧
      t.get? (place ++ [temporaryName id]) ≠ some .directory
  case neg =>
    refine .inl ?_
    rw [storeSteps, List.take_succ_cons, FileM.outcome_perform_cons]
    rcases hcreate : t.after (.create (s.temporaryPath id)) with e | t₁
    · exact refl_of (Shrunk place) t
    · have := (FileM.after_create h.leads hplain htemporary).mp hcreate
      exact absurd ⟨this.1, this.2.1⟩ hfits
  case pos =>
  have hcreate := (FileM.after_create h.leads hplain htemporary).mpr ⟨hfits.1, hfits.2, rfl⟩
  have hcreated := FileM.leads_put h.leads hfits.2 ByteArray.empty
  have hempty : (t.put (place ++ [temporaryName id]) (.file ByteArray.empty)).get?
      (place ++ [temporaryName id]) = some (.file ByteArray.empty) := by
    rw [FileTree.get?_put t (by simp), if_pos rfl]
  have happend := FileM.after_append hcreated hplain htemporary hfits.1 hempty data
  rcases n with _ | _ | n
  · refine .inl ?_
    rw [storeSteps, List.take_succ_cons, FileM.outcome_perform_cons_of_ok hcreate]
    exact .put_temporary hfits.2 _
  · refine .inl ?_
    rw [storeSteps, List.take_succ_cons, FileM.outcome_perform_cons_of_ok hcreate,
      List.take_succ_cons, FileM.outcome_perform_cons_of_ok happend]
    exact .prepared hfits.2 data
  -- what is prepared is complete
  rw [storeSteps, List.take_succ_cons, List.take_succ_cons, List.take_succ_cons,
    FileM.outcome_perform_fill h.leads hplain htemporary hfits.1 hfits.2]
  rcases n with _ | n
  · exact .inl (.prepared hfits.2 data)
  rw [List.take_succ_cons, FileM.outcome_perform_cons, after_rename h hid hfits.1 hfits.2]
  by_cases hdir : t.get? (place ++ [id]) = some .directory
  · rw [if_pos hdir]
    exact .inl (.prepared hfits.2 data)
  · rw [if_neg hdir]
    have hstorable : Storable t place id := ⟨hid, hfits.1, hfits.2, hdir⟩
    refine .inr ⟨hstorable, ?_⟩
    have hsited := (touched_stored hstorable data).sited h
    rcases n with _ | n
    · rfl
    · simp only [List.take_succ_cons, List.take_nil]
      rw [FileM.outcome_perform_cons_of_ok
        (FileM.after_sync (hsited.leads.node_self hsited.named))]
      rfl

end Stash

namespace Machine

variable {m m' : Machine} {place : Place} {id : String} {blocks : Nat} {data : Bytes}

/-! ## Counters -/

/-- The stash of a machine is at a place, and the counters say what it holds. -/
structure Balanced (place : Place) (m : Machine) : Prop where
  sited : m.stash.Sited m.files place
  distinct : m.files.Distinct
  tallied : m.Tallied place

namespace Balanced

theorem holding (h : m.Balanced place) :
    m.stash.holding m.files = .ok (m.stashedEntries, m.stashedBlocks) := by
  rw [Stash.holding_eq h.sited, h.tallied.entries, h.tallied.blocks]

/-- A machine with the same stash. -/
theorem idle (h : m.Balanced place) (hidle : m.Idle m') : m'.Balanced place where
  sited := hidle.sited h.sited
  distinct := hidle.files ▸ h.distinct
  tallied := by
    refine ⟨?_, ?_⟩
    · rw [hidle.stashedEntries, hidle.files]
      exact h.tallied.entries
    · rw [hidle.stashedBlocks, hidle.stash, hidle.files]
      exact h.tallied.blocks

/-- Files that are the same below the stash. -/
theorem withFiles (h : m.Balanced place) {t : FileTree} (hdistinct : t.Distinct)
    (hsited : m.stash.Sited t place)
    (hsame : ∀ name, Stash.validId name = true →
      t.get? (place ++ [name]) = m.files.get? (place ++ [name])) :
    ({ m with files := t } : Machine).Balanced place := by
  obtain ⟨hentries, hblocks⟩ := Stash.held_congr h.distinct hdistinct h.sited hsited hsame
  exact ⟨hsited, hdistinct, h.tallied.entries.trans hentries.symm,
    h.tallied.blocks.trans hblocks.symm⟩

/-- **An entry that is stored under a new name** is counted. -/
theorem keeping (h : m.Balanced place) (hstorable : Stash.Storable m.files place id)
    (hnew : ∀ old, m.files.get? (place ++ [id]) ≠ some (.file old))
    (hsize : data.size = blocks * blockSize) : (m.keeping place id blocks data).Balanced place := by
  -- nothing has the name yet, neither a file nor a directory
  have hnone : m.files.get? (place ++ [id]) = none := by
    rcases hfound : m.files.get? (place ++ [id]) with _ | old | _
    · rfl
    · exact absurd hfound (hnew old)
    · exact absurd hfound hstorable.entry
  have hsited : m.stash.Sited (Stash.stored m.files place id data) place :=
    (Stash.touched_stored hstorable data).sited h.sited
  have hdistinct := Stash.distinct_stored h.distinct place id data
  have hblocks : data.size / blockSize = blocks := by
    rw [hsize]
    exact Nat.mul_div_cancel _ (by decide)
  obtain ⟨hentries, hheld⟩ := Stash.held_cons h.distinct hdistinct h.sited hsited
    hstorable.isEntry hnone (by rw [Stash.get?_stored, if_pos rfl]) fun name hname hne => by
      rw [Stash.get?_stored, if_neg (by simpa using hne),
        if_neg (by simpa using Stash.ne_temporaryName hname id)]
  refine ⟨hsited, hdistinct, ?_, ?_⟩
  · show m.stashedEntries + 1 = (Stash.held (Stash.stored m.files place id data) place).length
    rw [hentries, h.tallied.entries]
  · show m.stashedBlocks + blocks = m.stash.heldBlocks (Stash.stored m.files place id data) place
    rw [hheld, hblocks, h.tallied.blocks]

/-- **An entry that is removed** is counted no more. -/
theorem drops (h : m.Balanced place) (hm : m.Drops place id m') : m'.Balanced place := by
  rcases hm with ⟨-, rfl⟩ | ⟨size, hsize, hdir, rfl⟩
  · exact h
  obtain ⟨hid, ⟨data, hdata, rfl⟩ | ⟨hfound, -⟩⟩ := (Stash.entrySize?_eq_some h.sited).mp hsize
  case inr => exact absurd hfound hdir
  have hget := FileTree.get?_removed m.files hdir
  -- what was there before has one entry more than what is left
  have hsited : m.stash.Sited (m.files.removed (place ++ [id])) place :=
    (Stash.Shrunk.removed hdir).toTouched.sited h.sited
  have hdistinct := h.distinct.removed (place ++ [id])
  obtain ⟨hentries, hblocks⟩ := Stash.held_cons hdistinct h.distinct hsited h.sited hid
    (by rw [hget, if_pos rfl]) hdata fun name _ hne => by rw [hget, if_neg (by simpa using hne)]
  refine ⟨hsited, hdistinct, ?_, ?_⟩
  · show m.stashedEntries - 1 = (Stash.held (m.files.removed (place ++ [id])) place).length
    rw [h.tallied.entries, hentries, Nat.add_sub_cancel]
  · show m.stashedBlocks - data.size / blockSize =
      m.stash.heldBlocks (m.files.removed (place ++ [id])) place
    rw [h.tallied.blocks, hblocks, Nat.add_sub_cancel]

end Balanced

/-! ## Limits -/

/-- The stash holds no more than the header allows. -/
def InLimits (m : Machine) : Prop :=
  ∃ entries blocks, m.stash.holding m.files = .ok (entries, blocks) ∧
    exceeds entries m.header.maxStashEntries = false ∧
    exceeds blocks m.header.maxStashBlocks = false

theorem inLimits_iff (h : m.stash.Sited m.files place) :
    m.InLimits ↔ exceeds (Stash.held m.files place).length m.header.maxStashEntries = false ∧
      exceeds (m.stash.heldBlocks m.files place) m.header.maxStashBlocks = false := by
  rw [InLimits, Stash.holding_eq h]
  simp

/-- What is no more than something in the limits is in the limits. -/
theorem exceeds_of_le {count count' limit : Nat} (hle : count' ≤ count)
    (h : exceeds count limit = false) : exceeds count' limit = false := by
  simp only [exceeds, Bool.and_eq_false_iff, decide_eq_false_iff_not] at h ⊢
  exact h.imp id fun h => by omega

/-- A stash from which entries were removed stays in its limits. -/
theorem InLimits.shrunk (h : m.InLimits) (hsited : m.stash.Sited m.files place)
    (hm : m.Shrunk place m') : m'.InLimits := by
  obtain ⟨hentries, hblocks⟩ := (inLimits_iff hsited).mp h
  obtain ⟨hfewer, hless⟩ := hm.files.held_le hsited
  refine (inLimits_iff (hm.sited hsited)).mpr ?_
  rw [hm.header, hm.stash]
  exact ⟨exceeds_of_le hfewer hentries, exceeds_of_le hless hblocks⟩

/-- An entry for which there was room stays in the limits. -/
theorem Balanced.inLimits_keeping (h : m.Balanced place)
    (hstorable : Stash.Storable m.files place id)
    (hnew : ∀ old, m.files.get? (place ++ [id]) ≠ some (.file old))
    (hsize : data.size = blocks * blockSize) (hroom : m.HasRoom blocks) :
    (m.keeping place id blocks data).InLimits :=
  ⟨_, _, (h.keeping hstorable hnew hsize).holding, hroom⟩

end Machine

namespace Command

open Machine

variable {P : Primitives} {c : Command} {m m' n : Machine} {place : Place}

/-! ## Commands -/

/-- What a command stores has a new name. -/
def StoresNew (P : Primitives) (c : Command) (place : Place) (m : Machine) : Prop :=
  ∀ id data, c.Stashes P m id data → Stash.Entry id →
    ∀ old, m.files.get? (place ++ [id]) ≠ some (.file old)

theorem applyRecipe_balanced {r : Recipe} {s : Source} (h : m.Balanced place)
    (hsize : s.data.size = s.blocks * blockSize)
    (hnew : Keeps r s m → Stash.Entry r.sourceHash →
      ∀ old, m.files.get? (place ++ [r.sourceHash]) ≠ some (.file old))
    (hrun : outcome (applyRecipe P c r s) m = (.ok (), m')) : m'.Balanced place := by
  obtain ⟨m₁, m₂, hkeep, hwrites, -, hdrop⟩ := applyRecipe_eq_ok.mp hrun
  -- the source is kept, the target is written, and the source is dropped
  have hkept : m₁.Balanced place := by
    rcases (keepSource_eq_ok h.sited).mp hkeep with ⟨hkeeps, -, hstorable, rfl⟩ | ⟨-, rfl⟩
    · exact h.keeping hstorable (hnew hkeeps hstorable.isEntry) hsize
    · exact h
  have hwrote : m₂.Balanced place := by
    have hidle := idle_writeTarget (P := P) (c := c) r s.data m₁
    rw [Leaves, hwrites] at hidle
    exact hkept.idle hidle
  exact hwrote.drops ((dropSource_eq_ok hwrote.sited).mp hdrop)

/-- **A command that succeeds keeps the counters right**, in a dry run too, if what it stores has a
new name. -/
theorem run_balanced (h : m.Balanced place) (hnew : c.StoresNew P place m)
    (hrun : outcome (c.run P) m = (.ok (), m')) : m'.Balanced place := by
  -- what leaves the stash alone leaves the counters right
  have hidle : ∀ {x : MachineM CommandFailure Unit}, Leaves Idle x m →
      outcome x m = (.ok (), m') → m'.Balanced place := by
    intro x hx hok
    rw [Leaves, hok] at hx
    exact h.idle hx
  rw [run] at hrun
  cases hverb : c.verb <;> rw [hverb] at hrun <;> simp only at hrun
  case abort | other => exact hidle (Leaves.pure ()) hrun
  case new => exact hidle (idle_writeNewData m) hrun
  case zero | erase => exact hidle (idle_clear m) hrun
  case move | copy | bsdiff | imgdiff =>
    have hmakes : c.makesTarget := by simp [makesTarget, hverb]
    rcases makeTarget_cases P c m with ⟨result, hsame⟩ | ⟨r, s, hneeds, hs⟩
    · obtain rfl : m = m' := congrArg Prod.snd ((hsame m.canWrite).symm.trans hrun)
      exact h
    cases hwrite : m.canWrite with
    | false => exact hidle (idle_of_dry hwrite hneeds hs) hrun
    | true =>
      rw [makeTarget_of_needs hwrite hneeds hs] at hrun
      obtain ⟨⟨⟩, m₁, happly, hcount⟩ := outcome_bind_eq_ok.mp hrun
      have hmade := applyRecipe_balanced h (source_verified hs h.sited).2
        (fun hkeeps => hnew _ _ (.source hmakes hneeds hs hkeeps)) happly
      obtain rfl := congrArg Prod.snd hcount
      exact hmade.idle ⟨rfl, rfl, rfl, rfl, rfl, rfl⟩
  case stash =>
    obtain ⟨id, set, hid, hset, ⟨-, rfl⟩ | ⟨hsize, data, hread, hstores⟩⟩ :=
      (outcome_stashBlocks_eq_ok h.sited).mp hrun
    · exact h
    obtain ⟨hverify, -, hstorable, rfl⟩ | ⟨-, -, rfl⟩ := hstores
    · exact h.keeping hstorable
        (hnew id data (.blocks hverb hid hset hsize hread hverify) hstorable.isEntry)
        (BlockSet.size_of_read? (sound_of_blockSet hset) hread)
    · exact h
  case free =>
    obtain ⟨id, -, ⟨-, rfl⟩ | ⟨-, -, hdrops⟩⟩ := (freeEntry_eq_ok h.sited).mp hrun
    · exact h
    · exact h.drops hdrops

/-- **However a command ends**, the stash stays in its limits. -/
theorem run_inLimits (h : m.Balanced place) (hnew : c.StoresNew P place m) (hlimits : m.InLimits) :
    (outcome (c.run P) m).2.InLimits := by
  obtain ⟨m₁, hgrows, hshrunk⟩ := run_grows P c h.sited
  refine InLimits.shrunk ?_ (hgrows.touched.sited h.sited) hshrunk
  rcases hgrows with rfl | ⟨id, blocks, data, hstashes, hsize, hroom, hstorable, rfl⟩
  · exact hlimits
  · exact h.inLimits_keeping hstorable (hnew id data hstashes hstorable.isEntry) hsize hroom

/-- A machine that a command passes through while it stores an entry: the entry is counted, and some
of the steps are done. -/
def Storing (P : Primitives) (c : Command) (m n : Machine) : Prop :=
  ∃ id path data blocks done, c.Stashes P m id data ∧ m.stash.entryPath id = .ok path ∧
    data.size = blocks * blockSize ∧ m.HasRoom blocks ∧
    n = { m with
      files := (outcome (FileM.perform ((m.stash.storeSteps id path data).take done)) m.files).2
      stashedEntries := m.stashedEntries + 1
      stashedBlocks := m.stashedBlocks + blocks }

/-- **While a command stores an entry**, the stash stays in its limits. -/
theorem Storing.inLimits (h : m.Balanced place) (hnew : c.StoresNew P place m)
    (hlimits : m.InLimits) (hn : c.Storing P m n) : n.InLimits := by
  obtain ⟨id, path, data, blocks, done, hstashes, hpath, hsize, hroom, rfl⟩ := hn
  have hid : Stash.validId id = true := by
    by_contra hnot
    rw [m.stash.entryPath_of_not_validId hnot] at hpath
    cases hpath
  rw [m.stash.entryPath_of_validId hid] at hpath
  obtain rfl := Except.ok.inj hpath
  rcases Stash.storeSteps_take h.sited hid data done with hshrunk | ⟨hstorable, hdone⟩
  · exact hlimits.shrunk h.sited ⟨rfl, rfl, rfl, hshrunk⟩
  · rw [hdone]
    exact h.inLimits_keeping hstorable (hnew id data hstashes hstorable.isEntry) hsize hroom

end Command

namespace Stash

variable {P : Primitives} {involved : Bytes → Prop} {t : FileTree} {place : Place}

/-! ## Names -/

/-- Every entry of the stash at a place has the name of its contents, and is involved. -/
def Identified (P : Primitives) (involved : Bytes → Prop) (t : FileTree) (place : Place) : Prop :=
  ∀ id data, Entry id → t.get? (place ++ [id]) = some (.file data) →
    Hex.sameDigest (Checksum.text P data) id = true ∧ involved data

end Stash

namespace Command

open Machine

variable {P : Primitives} {c : Command} {m : Machine} {place : Place} {involved : Bytes → Prop}

/-- **A name that is in use is not stored under again**: what would be stored is there. -/
theorem storesNew_of_identified (hfree : CollisionFree P involved)
    (hsited : m.stash.Sited m.files place)
    (hheld : Stash.Identified P involved m.files place)
    (hstashes : ∀ id data, c.Stashes P m id data → involved data) : c.StoresNew P place m := by
  intro id data h hid old hold
  have hnames := h.names hsited
  have hinvolved := hstashes id data h
  cases h with
  | blocks hverb hname hset hsize hread hverify =>
    -- what has the name has the same contents, and so a size at which nothing is stored
    obtain ⟨hdigest, hknown⟩ := hheld id old hid hold
    obtain rfl : old = data :=
      Checksum.eq_of_sameDigest hfree hdigest hnames.1 hknown hinvolved
    refine hsize ((Stash.entrySize?_eq_some hsited).mpr ⟨hid, .inl ⟨old, hold, ?_⟩⟩)
    exact BlockSet.size_of_read? (sound_of_blockSet hset) hread
  | source hmakes hneeds hs hkeeps =>
    -- a source is kept only if there is no file of its name
    obtain ⟨set, -, -, hcontains⟩ := hkeeps
    rw [(Stash.contains_iff hsited).mpr ⟨hid, old, hold⟩] at hcontains
    cases hcontains

end Command

namespace Session

open SessionOptions Machine

variable {P : Primitives} {o : SessionOptions} {place : Place} {involved : Bytes → Prop}
  {m : Machine} {c : Command} {commands : List String} {skip : RetrySkip} {r₀ : Run}

/-! ## Sessions -/

/-- A machine of a session whose counters are right, and whose entries have the names of their
contents. -/
structure InOrder (P : Primitives) (o : SessionOptions) (involved : Bytes → Prop) (place : Place)
    (m : Machine) : Prop where
  lodged : o.Lodged place m
  balanced : m.Balanced (o.baseAt place)
  identified : Stash.Identified P involved m.files (o.baseAt place)

namespace InOrder

/-- **A command that succeeds** leaves everything in order. -/
theorem ran (h : InOrder P o involved place m) (hfree : CollisionFree P involved)
    (hstashes : ∀ id data, c.Stashes P m id data → involved data) {m' : Machine}
    (hrun : outcome (c.run P) m = (.ok (), m')) : InOrder P o involved place m' := by
  have hnew := Command.storesNew_of_identified hfree h.balanced.sited h.identified hstashes
  have hlodged := h.lodged.ran P c
  rw [hrun] at hlodged
  refine ⟨hlodged, Command.run_balanced h.balanced hnew hrun, fun id data hid hdata => ?_⟩
  have hentry := Command.entry_of_run (P := P) (c := c) h.balanced.sited hid.1
    (by rw [hrun]; exact hdata)
  rcases hentry with hold | hstored
  · exact h.identified id data hid hold
  · exact ⟨(hstored.names h.balanced.sited).1, hstashes id data hstored⟩

/-- So does the saving of a marker, also when it fails. -/
theorem saved (h : InOrder P o involved place m) (c : Command) :
    InOrder P o involved place { m with
      files := (outcome ((RetryMarker.ofCommand c).save o.markerPath) m.files).2 } := by
  have hlodged := h.lodged.saved c
  have hsame : ∀ name, (outcome ((RetryMarker.ofCommand c).save o.markerPath) m.files).2.get?
      (o.baseAt place ++ [name]) = m.files.get? (o.baseAt place ++ [name]) :=
    fun name => h.lodged.saved_get? c (o.baseAt_append_ne_markerAt place name)
  refine ⟨hlodged, ?_, fun id data hid hdata => ?_⟩
  · exact h.balanced.withFiles
      (RetryMarker.distinct_save _ _ m.files h.balanced.distinct) hlodged.sited fun name _ => hsame name
  · exact h.identified id data hid ((hsame id).symm.trans hdata)

end InOrder

/-- What the commands of some lines stash is involved. -/
def Involves (P : Primitives) (o : SessionOptions) (skip : RetrySkip) (commands : List String)
    (r₀ : Run) (involved : Bytes → Prop) : Prop :=
  ∀ k r c, outcome (runLines P o skip 0 (commands.take k)) r₀ = (.ok (), r) →
    instruction? commands k = some c → skip.skips c = false →
    ∀ id data, c.Stashes P r.machine id data → involved data

section Lines

variable (hfree : CollisionFree P involved) (hinvolves : Involves P o skip commands r₀ involved)
  (hstart : InOrder P o involved place r₀.machine)

include hfree hinvolves hstart

/-- **Between two commands everything is in order.** -/
theorem inOrder_runLines {k : Nat} {r : Run}
    (h : outcome (runLines P o skip 0 (commands.take k)) r₀ = (.ok (), r)) :
    InOrder P o involved place r.machine := by
  induction k generalizing r with
  | zero =>
    obtain rfl : r₀ = r := congrArg Prod.snd h
    exact hstart
  | succ k ih =>
    rcases hline : commands[k]? with _ | line
    · rw [take_succ_of_none hline] at h
      exact ih h
    obtain ⟨r₁, hbefore, hstep⟩ := (runLines_take_succ hline).mp h
    have horder := ih hbefore
    -- a line without effect, or one whose command is executed and may leave a marker
    rcases runLine_cases hline P o skip r₁ with hsame | ⟨c, hc, hskip, hcommand⟩
    · rw [hstep] at hsame
      rw [hsame]
      exact horder
    · rw [hstep] at hcommand
      obtain ⟨m, t, hrun, hsaves, hmachine⟩ := runCommand_eq_ok hcommand.symm
      have hran := horder.ran hfree (hinvolves k r₁ c hbefore hc hskip) hrun
      rw [hmachine]
      rw [Saves] at hsaves
      split_ifs at hsaves
      · have hsaved := hran.saved c
        rwa [hsaves] at hsaved
      · rw [hsaves]
        exact hran

/-- **However lines end**, the stash is in its limits, if it was at the start. -/
theorem inLimits_runLines (hlimits : r₀.machine.InLimits) (k : Nat) :
    (outcome (runLines P o skip 0 (commands.take k)) r₀).2.machine.InLimits := by
  induction k with
  | zero => exact hlimits
  | succ k ih =>
    rcases hline : commands[k]? with _ | line
    · rwa [take_succ_of_none hline]
    rw [runLines_take_succ_bind hline]
    rcases hbefore : outcome (runLines P o skip 0 (commands.take k)) r₀ with ⟨e | ⟨⟩, r₁⟩
    · rw [outcome_bind_of_error hbefore]
      rwa [hbefore] at ih
    rw [hbefore] at ih
    rw [outcome_bind_of_ok hbefore]
    have horder := inOrder_runLines hfree hinvolves hstart hbefore
    rcases runLine_cases hline P o skip r₁ with hsame | ⟨c, hc, hskip, hcommand⟩
    · rwa [hsame]
    rw [hcommand]
    have hstashes := hinvolves k r₁ c hbefore hc hskip
    have hnew := Command.storesNew_of_identified hfree horder.balanced.sited horder.identified
      hstashes
    have hafter := Command.run_inLimits horder.balanced hnew ih
    rcases runCommand_machine P o c r₁ with hmachine | ⟨m, hrun, -, hmachine⟩
    · rwa [hmachine]
    · -- a marker is saved, which holds no more and no less
      rw [hrun] at hafter
      obtain ⟨entries, blocks, hholding, hbelow⟩ := hafter
      have hran := horder.ran hfree hstashes hrun
      have hsaved := hran.saved c
      rw [hmachine]
      refine ⟨entries, blocks, ?_, hbelow⟩
      rw [hsaved.balanced.holding]
      exact hran.balanced.holding.symm.trans hholding

end Lines

/-- What a stash deals with in a session: the entries that it holds at the start, and those that
commands store. -/
def StashData (P : Primitives) (o : SessionOptions) (lines : List String) (inputs : ScriptInputs)
    (w : World) (p : Prepared) (data : Bytes) : Prop :=
  (∃ id, p.machine.stash.load? p.machine.files id data.size = .ok (some data)) ∨
    ∃ k c m id, ExecutesAt P o lines inputs w k c m ∧ c.Stashes P m id data

/-- **The counters of a session say what its stash holds**, whenever it is between two commands. If
what the stash holds at the start is within the limits of the header, then so it is wherever the
session stops, and while a command stores an entry. The stash of a fresh session is empty at the
start; that of one that resumes has to have entries that are named by their digests. -/
theorem stash_counted (hplain : o.PlainPartition) {lines : List String} {inputs : ScriptInputs}
    {w w' : World} (hwell : w.files.WellFormed) (hdistinct : w.files.Distinct) {p : Prepared}
    (hprepare : outcome (prepare o lines inputs) w = (.ok p, w'))
    (hinitial : o.retry = true → ∀ id data,
      p.machine.stash.load? p.machine.files id data.size = .ok (some data) →
      Hex.sameDigest (Checksum.text P data) id = true)
    (hfree : CollisionFree P (StashData P o lines inputs w p)) :
    (∀ k r, Reaches P o lines inputs w k p r → r.machine.stash.holding r.machine.files =
      .ok (r.machine.stashedEntries, r.machine.stashedBlocks)) ∧
    (p.machine.InLimits →
      (∀ k, (outcome (runLines P o p.skip 0 (p.commands.take k))
        { machine := p.machine, progress := w'.progress }).2.machine.InLimits) ∧
      ∀ k c m n, ExecutesAt P o lines inputs w k c m → c.Storing P m n → n.InLimits) := by
  obtain ⟨place, hlodged, htallied, hfiles, -, -, hfresh⟩ := prepare_opens hplain hwell hprepare
  have hstart : InOrder P o (StashData P o lines inputs w p) place p.machine := by
    refine ⟨hlodged, ⟨hlodged.sited, ?_, htallied⟩, fun id data hid hdata => ?_⟩
    · rw [hfiles]
      exact distinct_prepare hdistinct hprepare
    have hload := (Stash.load?_eq_some hlodged.sited).mpr ⟨hid, hdata, rfl⟩
    refine ⟨?_, .inl ⟨id, hload⟩⟩
    cases hretry : o.retry with
    | true => exact hinitial hretry id data hload
    | false =>
      have hmem := Stash.mem_held.mpr ⟨FileTree.mem_of_get? (by simp) hdata, hid.1⟩
      rw [hfresh hretry] at hmem
      cases hmem
  have hinvolves : Involves P o p.skip p.commands
      { machine := p.machine, progress := w'.progress } (StashData P o lines inputs w p) :=
    fun k r c hlines hc hskip id data hstashes =>
      .inr ⟨k, c, r.machine, id, ⟨p, r, ⟨w', hprepare, hlines⟩, hc, hskip, rfl⟩, hstashes⟩
  have hreaches : ∀ {k q r}, Reaches P o lines inputs w k q r → q = p ∧
      outcome (runLines P o p.skip 0 (p.commands.take k))
        { machine := p.machine, progress := w'.progress } = (.ok (), r) := by
    rintro k q r ⟨w₁, hprepare₁, hlines⟩
    rw [hprepare] at hprepare₁
    obtain ⟨hq, rfl⟩ := Prod.ext_iff.mp hprepare₁
    obtain rfl := Except.ok.inj hq
    exact ⟨rfl, hlines⟩
  refine ⟨fun k r hr => ?_, fun hlimits => ⟨?_, ?_⟩⟩
  · exact (inOrder_runLines hfree hinvolves hstart (hreaches hr).2).balanced.holding
  · exact inLimits_runLines hfree hinvolves hstart hlimits
  · rintro k c m n ⟨q, r, hr, hc, hskip, rfl⟩ hstoring
    obtain ⟨rfl, hlines⟩ := hreaches hr
    have horder := inOrder_runLines hfree hinvolves hstart hlines
    have hnew := Command.storesNew_of_identified hfree horder.balanced.sited horder.identified
      (hinvolves k r c hlines hc hskip)
    have hbelow := inLimits_runLines hfree hinvolves hstart hlimits k
    rw [hlines] at hbelow
    exact Command.Storing.inLimits horder.balanced hnew hbelow hstoring

/-! ## A second entry -/

open Bytes (uniform)

/-- A script that stashes block 1, if it is filled with zeros. It may hold two blocks. -/
def stashOnce : List String :=
  ["4", "0", "2", "2",
    "stash ad7facb2586fc6e966c004d7d1d16b024f5805ff7cb47c7a85dabd8b48892ca7 2,1,2"]

/-- The command of the script. -/
def stashZeros : Command := ⟨.stash, [Digest.name [0], "2,1,2"], stashOnce.getD 4 "", 0⟩

theorem header_stashOnce : ScriptHeader.parse stashOnce = .ok (⟨4, 0, 2, 2⟩, 4) := by
  rw [stashOnce]
  cbv

/-- A second block can be stashed beside the one that was left there. -/
theorem storable_keptWorld : Stash.Storable (keptWorld 7 [7, 0]).files
    (resumingOptions.stashAt ["w"]) (Digest.name [0]) := by
  have hnone : ∀ name, (keptWorld 7 [7, 0]).files.get? (resumingOptions.stashAt ["w"] ++ [name]) ≠
      some .directory := by
    intro name
    rw [get?_stash_keptWorld]
    split_ifs <;> simp
  exact ⟨by decide, by decide, hnone _, hnone _⟩

theorem run_stashZeros {m : Machine} (hdevice : m.device = Device.file (uniform [7, 0]))
    (hlive : m.canWrite = true) (hfiles : m.files = (keptWorld 7 [7, 0]).files)
    (hsited : m.stash.Sited m.files (resumingOptions.stashAt ["w"])) (hroom : m.HasRoom 1) :
    outcome (stashZeros.run .tabled) m =
      (.ok (), m.keeping (resumingOptions.stashAt ["w"]) (Digest.name [0]) 1 (uniform [0])) := by
  have hpick : BlockSet.pick [⟨1, 1⟩] [7, 0] = [0] := rfl
  have hnew : m.files.get? (resumingOptions.stashAt ["w"] ++ [Digest.name [0]]) = none := by
    rw [hfiles, get?_stash_keptWorld, if_neg (by decide)]
  have hfits : ∀ q ∈ ([⟨1, 1⟩] : List BlockRange), q.stop ≤ ([7, 0] : List UInt8).length := by
    intro q hq
    rw [List.mem_singleton.mp hq]
    exact Nat.le_refl 2
  have hverify : Checksum.verify .tabled (uniform (BlockSet.pick [⟨1, 1⟩] [7, 0])) 1
      (Digest.name [0]) = true := by
    rw [hpick]
    exact (Checksum.verify_uniform rfl).trans (decide_eq_true rfl)
  have hset : stashZeros.blockSet 1 = .ok ⟨[⟨1, 1⟩], 1⟩ := rfl
  have hkeep := Command.stashBlocks_uniform
    (by rw [hdevice]; exact ⟨rfl, rfl⟩) (by rw [hdevice]; rfl : m.device.image = uniform [7, 0])
    (by decide) hlive hsited rfl hset hfits hnew hroom (hfiles ▸ storable_keptWorld) hverify
  rw [hpick] at hkeep
  exact hkeep

/-- A session that resumes with one entry, and reaches its limits with a second one. -/
theorem stash_counted_kept : ∃ p r,
    outcome (prepare resumingOptions stashOnce {}) (keptWorld 7 [7, 0]) =
      (.ok p, keptWorld 7 [7, 0]) ∧
    p.machine.stash.holding p.machine.files = .ok (1, 1) ∧
    Reaches .tabled resumingOptions stashOnce {} (keptWorld 7 [7, 0]) 1 p r ∧
    r.machine.stash.holding r.machine.files = .ok (2, 2) ∧ r.machine.InLimits := by
  obtain ⟨p, hprepare, hcommands, hskip, hp⟩ := prepare_keptWorld 7 [7, 0] {} header_stashOnce
  have hwork := work_keptWorld 7 [7, 0]
  have hfiles : p.machine.files = (keptWorld 7 [7, 0]).files := by rw [hp]; rfl
  have hheader : p.machine.header = ⟨4, 0, 2, 2⟩ := by rw [hp]; rfl
  have hlive : p.machine.canWrite = true := by rw [hp]; rfl
  have hbase : p.machine.stash.base = resumingOptions.stashDir := by rw [hp]; rfl
  have hsited : p.machine.stash.Sited p.machine.files (resumingOptions.stashAt ["w"]) := by
    rw [hfiles]
    exact hwork.sited plain_resumingOptions hbase
  have hget : ∀ name, p.machine.files.get? (resumingOptions.stashAt ["w"] ++ [name]) =
      if name = Digest.name [7] then some (.file (uniform [7])) else none := by
    intro name
    rw [hfiles, get?_stash_keptWorld]
  -- the entry that is there is counted
  have hheld : Stash.held p.machine.files (resumingOptions.stashAt ["w"]) =
      [(Digest.name [7], uniform [7])] := by
    rw [hfiles]
    rfl
  have hentry : Stash.Entry (Digest.name [7]) := ⟨by decide, by decide⟩
  have hone : p.machine.stash.heldBlocks p.machine.files (resumingOptions.stashAt ["w"]) = 1 := by
    rw [Stash.heldBlocks, hheld, List.map_singleton, List.sum_singleton,
      Stash.entryBlocks_of_file hsited hentry ((hget _).trans (if_pos rfl)), Bytes.size_uniform]
    rfl
  have hholding : p.machine.stash.holding p.machine.files = .ok (1, 1) := by
    rw [Stash.holding_eq hsited, hone, hheld]
    rfl
  have hcounted : p.machine.stashedEntries = 1 ∧ p.machine.stashedBlocks = 1 := by
    rw [hp] at hheld hone ⊢
    exact ⟨(Nat.zero_add _).trans (congrArg List.length hheld), (Nat.zero_add _).trans hone⟩
  -- the second one is stashed beside it
  have hroom : p.machine.HasRoom 1 := by
    rw [HasRoom, hcounted.1, hcounted.2, hheader]
    exact ⟨rfl, rfl⟩
  have hrun := run_stashZeros (by rw [hp]; rfl) hlive hfiles hsited hroom
  have hwithin := Command.run_within hlive hsited hrun
  have hc : instruction? p.commands 0 = some stashZeros := by
    rw [hcommands]
    exact instruction?_eq_some.mpr ⟨_, rfl, by decide, by decide⟩
  let start : Run := { machine := p.machine, progress := (keptWorld 7 [7, 0]).progress }
  have hrun₀ : outcome (runLines .tabled resumingOptions p.skip 0 (p.commands.take 0)) start =
      (.ok (), start) := rfl
  have hskips : p.skip.skips stashZeros = false := by
    rw [hskip]
    rfl
  have hworkNow : resumingOptions.Workspace p.machine.files ["w"] := hfiles ▸ hwork
  obtain ⟨r, hlines, hr⟩ := runLines_take_of_run hc hrun₀ hskips plain_resumingOptions rfl
    (hworkNow.congr hwithin.directories) hrun
  have hreaches : Reaches .tabled resumingOptions stashOnce {} (keptWorld 7 [7, 0]) 1 p r :=
    ⟨_, hprepare, hlines⟩
  have hlimits : p.machine.InLimits := ⟨1, 1, hholding, by rw [hheader]; exact ⟨rfl, rfl⟩⟩
  obtain ⟨hcounts, hbelow⟩ := stash_counted (P := .tabled) plain_resumingOptions
    (wellFormed_keptWorld 7 [7, 0]) (by decide) hprepare
    (fun _ id data hload => by
      obtain ⟨-, hdata, -⟩ := (Stash.load?_eq_some hsited).mp hload
      rw [hget] at hdata
      split_ifs at hdata with hname
      obtain rfl : uniform [7] = data := by simpa using hdata
      exact hname ▸ names_seven.1)
    (collisionFree_tabled _)
  have hafter := (hbelow hlimits).1 1
  rw [hlines] at hafter
  refine ⟨p, r, hprepare, hholding, hreaches, ?_, hafter⟩
  rw [hcounts 1 r hreaches, hr, marked_eq]
  show Except.ok (p.machine.stashedEntries + 1, p.machine.stashedBlocks + 1) = _
  rw [hcounted.1, hcounted.2]

end Session

end BlockUpdate
