import BlockUpdate.Proofs.Accounts
import BlockUpdate.Proofs.Confined

/-!
# What becomes of the entries of a stash

A command stores one entry at most, and does so before it removes any. This holds however it ends,
in a dry run as in a real one: a failure of the device or of the stash comes before an entry is
stored, or after it, and then nothing but a removal can follow.

- `Stash.Touched`: a tree that differs from another in what is in a stash at most.
- `Stash.Shrunk`: one in which nothing happened to the stash but that entries were removed.
- `Machine.Idle`: a machine whose stash nothing happened to.
- `Command.Grows`: the entry that a command stores, if it stores one.
- **`Command.run_grows`**: every end of a command lies behind these two.
- **`Command.run_touched`**, `entry_of_run`: what that means for the files.
-/

namespace BlockUpdate

namespace Stash

/-! ## Removing entries -/

variable {s : Stash} {t t' : FileTree} {place : Place} {id : String}

/-- A tree that differs from another in what is in a stash at a place at most. -/
structure Touched (place : Place) (t t' : FileTree) : Prop where
  directories : ∀ q, t'.get? q = some .directory ↔ t.get? q = some .directory
  elsewhere : ∀ q, ¬ Below place q → t'.get? q = t.get? q

instance : IsPreorder FileTree (Touched place) where
  refl _ := ⟨fun _ => Iff.rfl, fun _ _ => rfl⟩
  trans _ _ _ h h' := ⟨fun q => (h'.directories q).trans (h.directories q),
    fun q hq => (h'.elsewhere q hq).trans (h.elsewhere q hq)⟩

/-- One file of the stash is another one now, or is gone. -/
theorem Touched.of_get? {name : String} {node : Option Node}
    (hget : ∀ q, t'.get? q = if q = place ++ [name] then node else t.get? q)
    (hdir : t.get? (place ++ [name]) ≠ some .directory) (hnode : node ≠ some .directory) :
    Touched place t t' where
  directories := FileTree.directory_iff_of_get? hget hdir hnode
  elsewhere q hq := by rw [hget, if_neg fun h => hq ⟨_, h⟩]

theorem Touched.sited (h : Touched place t t') (hs : s.Sited t place) : s.Sited t' place :=
  hs.mono fun q => (h.directories q).mpr

/-- A file was prepared. -/
theorem touched_written {name : String} (hdir : t.get? (place ++ [name]) ≠ some .directory)
    (data : Bytes) : Touched place t (t.written (place ++ [name]) data) :=
  .of_get? (FileTree.get?_written t (by simp) data) hdir (by simp)

/-- An entry was stored. -/
theorem touched_stored (h : Storable t place id) (data : Bytes) :
    Touched place t (stored t place id data) where
  directories := directory_stored h data
  elsewhere q hq := by
    rw [get?_stored, if_neg fun h => hq ⟨_, h⟩, if_neg fun h => hq ⟨_, h⟩]

/-- **Storing an entry** touches the stash only, however it ends. -/
theorem touched_store (h : s.Sited t place) (id : String) (data : Bytes) :
    Leaves (Touched place) (s.store id data) t := by
  unfold Leaves
  rcases outcome_store h id data with ⟨hstorable, hrun⟩ | ⟨-, e, hrun | ⟨hdir, hrun⟩⟩ <;> rw [hrun]
  · exact touched_stored hstorable data
  · exact refl_of (Touched place) t
  · exact touched_written hdir data

/-- A tree in which nothing happened to a stash but that entries were removed. -/
structure Shrunk (place : Place) (t t' : FileTree) : Prop extends Touched place t t' where
  entry : ∀ id data, validId id = true → t'.get? (place ++ [id]) = some (.file data) →
    t.get? (place ++ [id]) = some (.file data)
  held : (held t' place).Sublist (held t place)

namespace Shrunk

instance : IsPreorder FileTree (Shrunk place) where
  refl t := ⟨refl_of (Touched place) t, fun _ _ _ h => h, .refl _⟩
  trans _ _ _ h h' := {
    toTouched := trans_of (Touched place) h.toTouched h'.toTouched
    entry := fun id data hid hdata => h.entry id data hid (h'.entry id data hid hdata)
    held := h'.held.trans h.held }

/-- An entry was removed, or there was none. -/
theorem removed (hdir : t.get? (place ++ [id]) ≠ some .directory) :
    Shrunk place t (t.removed (place ++ [id])) := by
  have hget := FileTree.get?_removed t hdir
  refine ⟨.of_get? hget hdir (by simp), ?_, ?_⟩
  · intro name data _ hdata
    rw [hget] at hdata
    split_ifs at hdata
    exact hdata
  · rw [FileTree.removed]
    split
    · rw [held_erase]
      exact List.filter_sublist
    · exact List.Sublist.refl _

/-- A file is in preparation. -/
theorem put_temporary (hdir : t.get? (place ++ [temporaryName id]) ≠ some .directory)
    (data : Bytes) : Shrunk place t (t.put (place ++ [temporaryName id]) (.file data)) := by
  have hne : place ++ [temporaryName id] ≠ [] := by simp
  have hget := FileTree.get?_put t hne (.file data)
  refine ⟨.of_get? hget hdir (by simp), ?_, ?_⟩
  · intro name found hname hfound
    rw [hget, if_neg (by simpa using ne_temporaryName hname id)] at hfound
    exact hfound
  · rw [held_put_temporary]
    exact List.filter_sublist

/-- A file was prepared. -/
theorem prepared (hdir : t.get? (place ++ [temporaryName id]) ≠ some .directory) (data : Bytes) :
    Shrunk place t (t.written (place ++ [temporaryName id]) data) := by
  refine trans_of (Shrunk place) (put_temporary hdir ByteArray.empty) (put_temporary ?_ _)
  rw [FileTree.get?_put t (by simp), if_pos rfl]
  simp

end Shrunk

theorem shrunk_free (h : s.Sited t place) (id : String) : Leaves (Shrunk place) (s.free id) t := by
  unfold Leaves
  rcases hrun : outcome (s.free id) t with ⟨e | ⟨⟩, t'⟩
  · -- a removal that fails removes nothing
    have hsame : t' = t := by
      by_cases hid : validId id = true
      · rw [free, outcome_bind_of_ok (a := s.base.join id) (t := t)
          (by rw [outcome_fileLook, s.entryPath_of_validId hid]), outcome_fileMapError] at hrun
        obtain ⟨hresult, htree⟩ := Prod.ext_iff.mp hrun
        obtain ⟨e', he', -⟩ := mapError_eq_error.mp hresult
        exact FileM.removeIfPresent_eq_error (Prod.ext he' htree)
      · rw [free, outcome_bind, outcome_fileLook, s.entryPath_of_not_validId hid] at hrun
        exact (congrArg Prod.snd hrun).symm
    rw [hsame]
    exact refl_of (Shrunk place) t
  · obtain ⟨-, hdir, rfl⟩ := (free_eq_ok h).mp hrun
    exact .removed hdir

end Stash

namespace Machine

/-- A machine whose files differ from those of another in what is in its stash at most. -/
structure Touched (place : Place) (m m' : Machine) : Prop where
  stash : m'.stash = m.stash
  header : m'.header = m.header
  canWrite : m'.canWrite = m.canWrite
  files : Stash.Touched place m.files m'.files

variable {m m' m'' : Machine} {place : Place} {ε α : Type}

theorem Touched.trans (h : m.Touched place m') (h' : m'.Touched place m'') :
    m.Touched place m'' :=
  ⟨h'.stash.trans h.stash, h'.header.trans h.header, h'.canWrite.trans h.canWrite,
    trans_of (Stash.Touched place) h.files h'.files⟩

theorem Touched.sited (h : m.Touched place m') (hm : m.stash.Sited m.files place) :
    m'.stash.Sited m'.files place := by
  rw [h.stash]
  exact h.files.sited hm

/-- A machine in which nothing happened to its stash but that entries were removed. -/
structure Shrunk (place : Place) (m m' : Machine) : Prop where
  stash : m'.stash = m.stash
  header : m'.header = m.header
  canWrite : m'.canWrite = m.canWrite
  files : Stash.Shrunk place m.files m'.files

instance : IsPreorder Machine (Shrunk place) where
  refl m := ⟨rfl, rfl, rfl, refl_of (Stash.Shrunk place) m.files⟩
  trans _ _ _ h h' := ⟨h'.stash.trans h.stash, h'.header.trans h.header,
    h'.canWrite.trans h.canWrite, trans_of (Stash.Shrunk place) h.files h'.files⟩

theorem Shrunk.touched (h : m.Shrunk place m') : m.Touched place m' :=
  ⟨h.stash, h.header, h.canWrite, h.files.toTouched⟩

theorem Shrunk.sited (h : m.Shrunk place m') (hm : m.stash.Sited m.files place) :
    m'.stash.Sited m'.files place := h.touched.sited hm

/-! ## Parts of a command -/

/-- A machine whose stash is that of another, and is counted as that one is. -/
structure Idle (m m' : Machine) : Prop where
  stash : m'.stash = m.stash
  header : m'.header = m.header
  canWrite : m'.canWrite = m.canWrite
  files : m'.files = m.files
  stashedEntries : m'.stashedEntries = m.stashedEntries
  stashedBlocks : m'.stashedBlocks = m.stashedBlocks

instance : IsPreorder Machine Idle where
  refl _ := ⟨rfl, rfl, rfl, rfl, rfl, rfl⟩
  trans _ _ _ h h' := ⟨h'.stash.trans h.stash, h'.header.trans h.header,
    h'.canWrite.trans h.canWrite, h'.files.trans h.files,
    h'.stashedEntries.trans h.stashedEntries, h'.stashedBlocks.trans h.stashedBlocks⟩

theorem Idle.shrunk (h : m.Idle m') : m.Shrunk place m' :=
  ⟨h.stash, h.header, h.canWrite, h.files ▸ refl_of (Stash.Shrunk place) m.files⟩

theorem Idle.sited (h : m.Idle m') (hm : m.stash.Sited m.files place) :
    m'.stash.Sited m'.files place := h.shrunk.sited hm

theorem idle_look (f : Machine → Except ε α) (m : Machine) : Leaves Idle (look f) m :=
  refl_of Idle m

theorem idle_ofCommand (x : Except CommandError α) (m : Machine) : Leaves Idle (ofCommand x) m :=
  idle_look _ m

/-- What is done to the device leaves the stash alone. -/
theorem idle_onDevice (x : DeviceM BlockError α) (m : Machine) : Leaves Idle (onDevice x) m :=
  ⟨rfl, rfl, rfl, rfl, rfl, rfl⟩

theorem idle_addWritten (blocks : Nat) (m : Machine) : Leaves Idle (addWritten blocks) m :=
  ⟨rfl, rfl, rfl, rfl, rfl, rfl⟩

theorem shrunk_onFiles {x : FileM StashError α} (h : Leaves (Stash.Shrunk place) x m.files) :
    Leaves (Shrunk place) (onFiles x) m := ⟨rfl, rfl, rfl, h⟩

theorem reserve_eq_error {blocks : Nat} {e : CommandFailure}
    (h : outcome (reserve blocks) m = (.error e, m')) : m' = m := by
  rw [reserve, outcome_get_bind] at h
  by_cases hentries : exceeds (m.stashedEntries + 1) m.header.maxStashEntries = true
  · rw [if_pos hentries] at h
    exact (congrArg Prod.snd h).symm
  by_cases hblocks : exceeds (m.stashedBlocks + blocks) m.header.maxStashBlocks = true
  · rw [if_neg hentries, if_pos hblocks] at h
    exact (congrArg Prod.snd h).symm
  · rw [if_neg hentries, if_neg hblocks] at h
    cases congrArg Prod.fst h

/-- How counting and storing an entry ends. -/
theorem keep_cases (h : m.stash.Sited m.files place) (blocks : Nat) (id : String) (data : Bytes) :
    (m.HasRoom blocks ∧ Stash.Storable m.files place id ∧
      outcome (reserve blocks >>= fun _ => onFiles (m.stash.store id data)) m =
        (.ok (), m.keeping place id blocks data)) ∨
    ∃ e m', outcome (reserve blocks >>= fun _ => onFiles (m.stash.store id data)) m =
      (.error e, m') ∧ m.Shrunk place m' := by
  rcases hreserve : outcome (reserve blocks) m with ⟨e | ⟨⟩, m₁⟩
  · obtain rfl := reserve_eq_error hreserve
    exact .inr ⟨e, m₁, outcome_bind_of_error hreserve _, refl_of (Shrunk place) m₁⟩
  · obtain ⟨hroom, rfl⟩ := reserve_eq_ok.mp hreserve
    rw [outcome_bind_of_ok hreserve, outcome_machineOnFiles]
    rcases Stash.outcome_store h id data with ⟨hstorable, hrun⟩ | ⟨-, e, hrun | ⟨hdir, hrun⟩⟩
    · rw [hrun]
      exact .inl ⟨hroom, hstorable, rfl⟩
    · rw [hrun]
      exact .inr ⟨_, _, rfl, rfl, rfl, rfl, refl_of (Stash.Shrunk place) m.files⟩
    · rw [hrun]
      exact .inr ⟨_, _, rfl, rfl, rfl, rfl, .prepared hdir data⟩

end Machine

namespace Command

open Machine

variable {P : Primitives} {c : Command} {m : Machine} {place : Place}

/-! ## What a command stores -/

/-- A command stores one entry, or none. -/
def Grows (P : Primitives) (c : Command) (place : Place) (m m₁ : Machine) : Prop :=
  m₁ = m ∨ ∃ id blocks data, c.Stashes P m id data ∧ data.size = blocks * blockSize ∧
    m.HasRoom blocks ∧ Stash.Storable m.files place id ∧ m₁ = m.keeping place id blocks data

/-- However a computation ends, an entry was stored at most, and only then entries were removed. -/
def Settles (P : Primitives) (c : Command) (place : Place) (m : Machine)
    (x : MachineM CommandFailure Unit) : Prop :=
  ∃ m₁, c.Grows P place m m₁ ∧ Machine.Shrunk place m₁ (outcome x m).2

theorem settles_of_shrunk {x : MachineM CommandFailure Unit}
    (h : Leaves (Machine.Shrunk place) x m) : c.Settles P place m x := ⟨m, .inl rfl, h⟩

/-- Nothing was changed. -/
theorem settles_of_eq {x : MachineM CommandFailure Unit} (h : (outcome x m).2 = m) :
    c.Settles P place m x := by
  refine ⟨m, .inl rfl, ?_⟩
  rw [h]
  exact refl_of (Machine.Shrunk place) m

theorem settles_ofCommand {α : Type} {x : Except CommandError α}
    {f : α → MachineM CommandFailure Unit} (h : ∀ a, x = .ok a → c.Settles P place m (f a)) :
    c.Settles P place m (ofCommand x >>= f) := by
  rcases hx : x with e | a
  · exact settles_of_eq rfl
  · rw [Settles, outcome_bind_of_ok (ofCommand_eq_ok.mpr ⟨rfl, rfl⟩)]
    exact h a hx

/-- An entry is stored, and what follows stores none. -/
theorem settles_keep (hsited : m.stash.Sited m.files place) {id : String} {data : Bytes}
    {blocks : Nat} (hstashes : c.Stashes P m id data) (hsize : data.size = blocks * blockSize)
    {x : MachineM CommandFailure Unit}
    (hx : outcome x m =
      outcome (reserve blocks >>= fun _ => onFiles (m.stash.store id data)) m)
    {f : Unit → MachineM CommandFailure Unit}
    (hf : ∀ n : Machine, n.stash.Sited n.files place → Leaves (Machine.Shrunk place) (f ()) n) :
    c.Settles P place m (x >>= f) := by
  rw [Settles]
  rcases keep_cases hsited blocks id data with ⟨hroom, hstorable, hkeep⟩ | ⟨e, m', hkeep, hm'⟩
  · -- the entry is stored, and what follows removes entries at most
    refine ⟨_, .inr ⟨id, blocks, data, hstashes, hsize, hroom, hstorable, rfl⟩, ?_⟩
    rw [outcome_bind_of_ok (hx.trans hkeep)]
    exact hf _ ((within_keeping (fun _ => False) hstorable blocks data).sited hsited)
  · -- nothing follows a failure
    refine ⟨m, .inl rfl, ?_⟩
    rw [outcome_bind_of_error (hx.trans hkeep)]
    exact hm'

/-! ## Commands that store nothing -/

theorem idle_writeNewData (m : Machine) : Leaves Idle c.writeNewData m := by
  have hfill : ∀ (set : BlockSet) (n : Machine), Leaves Idle (fillFromNewData set) n := by
    intro set n
    unfold Leaves
    rw [fillFromNewData, outcome_mk]
    rcases n.newData with _ | feed
    · exact refl_of Idle n
    · dsimp only
      rcases Feed.fill.run ⟨feed, BlockWriter.new set (!n.canWrite), n.device⟩ with ⟨_ | _, s⟩ <;>
        exact ⟨rfl, rfl, rfl, rfl, rfl, rfl⟩
  exact Leaves.bind (idle_ofCommand _ m) fun set n _ _ => Leaves.bind (hfill set n) fun _ n' _ _ =>
    idle_addWritten _ n'

theorem idle_clear (m : Machine) : Leaves Idle c.clear m := by
  refine Leaves.bind (idle_ofCommand _ m) fun set n _ _ => ?_
  have hcount : ∀ n' : Machine, Leaves Idle
      (if (!(c.verb == .erase)) = true then addWritten set.total else Pure.pure ()) n' :=
    fun n' => Leaves.ite (fun _ => idle_addWritten _ n') fun _ => Leaves.pure _
  refine Leaves.get_bind (Leaves.ite (fun _ => Leaves.get_bind ?_) fun _ => hcount n)
  exact Leaves.bind (idle_onDevice _ n) fun _ n' _ _ => hcount n'

theorem idle_writeTarget (r : Recipe) (data : Bytes) (m : Machine) :
    Leaves Idle (writeTarget P c r data) m := by
  refine Leaves.ite (fun _ => ?_) fun _ => ?_
  · exact Leaves.bind (idle_onDevice _ m) fun _ n _ _ => idle_onDevice _ n
  · exact Leaves.bind (idle_look _ m) fun _ n _ _ =>
      Leaves.bind (idle_onDevice _ n) fun _ n' _ _ => idle_onDevice _ n'

theorem idle_checkTarget (r : Recipe) (m : Machine) : Leaves Idle (checkTarget P r) m :=
  Leaves.get_bind (Leaves.ite (fun _ => Leaves.throw _) fun _ => Leaves.pure _)

/-- A move or a patch leaves the stash alone in a dry run. -/
theorem idle_of_dry (hdry : m.canWrite = false) {r : Recipe} {s : Source}
    (hneeds : Needs P c m r) (hs : c.source P r m = .ok s) : Leaves Idle (c.makeTarget P) m := by
  unfold Leaves
  rw [makeTarget_of_dry hdry hneeds hs]
  exact Leaves.bind (idle_look _ m) fun _ n _ _ => idle_addWritten _ n

theorem shrunk_release_free (hsited : m.stash.Sited m.files place) (blocks : Nat) (id : String) :
    Leaves (Machine.Shrunk place) (release blocks >>= fun _ => onFiles (m.stash.free id)) m := by
  have hrelease : Leaves (Machine.Shrunk place) (release blocks) m :=
    ⟨rfl, rfl, rfl, refl_of (Stash.Shrunk place) m.files⟩
  refine Leaves.bind hrelease fun _ n hrun _ => ?_
  rw [release, outcome_modify] at hrun
  obtain rfl := (congrArg Prod.snd hrun).symm
  exact shrunk_onFiles (Stash.shrunk_free hsited id)

theorem shrunk_freeEntry (hsited : m.stash.Sited m.files place) :
    Leaves (Machine.Shrunk place) c.freeEntry m := by
  refine Leaves.bind (idle_ofCommand _ m).shrunk fun id n hrun _ => ?_
  obtain ⟨-, rfl⟩ := ofCommand_eq_ok.mp hrun
  refine Leaves.get_bind (Leaves.ite (fun _ => ?_) fun _ => Leaves.pure _)
  cases m.stash.entrySize? m.files id with
  | none => exact shrunk_onFiles (Stash.shrunk_free hsited id)
  | some size => exact shrunk_release_free hsited _ id

theorem shrunk_dropSource (r : Recipe) (hsited : m.stash.Sited m.files place) :
    Leaves (Machine.Shrunk place) (dropSource r) m := by
  refine Leaves.get_bind ?_
  cases m.stash.entrySize? m.files r.sourceHash with
  | none => exact Leaves.pure _
  | some size => exact shrunk_release_free hsited _ _

/-! ## Whole commands -/

/-- Stashing blocks stores them, if it stores anything. -/
theorem settles_stashBlocks (hverb : c.verb = .stash) (hsited : m.stash.Sited m.files place) :
    c.Settles P place m (c.stashBlocks P) := by
  refine settles_ofCommand fun id hid => settles_ofCommand fun set hset => ?_
  -- nothing is stored if an entry of the right size is there, or the blocks are not the right ones
  by_cases hsize : m.stash.entrySize? m.files id = some set.byteLength
  · refine settles_of_eq ?_
    rw [outcome_get_bind, if_neg (not_not_intro hsize)]
    rfl
  rcases hread : set.read? m.device with _ | data
  · refine settles_of_eq ?_
    rw [outcome_get_bind, if_pos hsize, hread]
    rfl
  by_cases hverify : Checksum.verify P data set.total id = true
  · obtain ⟨m₁, hgrows, hshrunk⟩ := settles_keep (f := pure) hsited
      (.blocks hverb hid hset hsize hread hverify)
      (BlockSet.size_of_read? (sound_of_blockSet hset) hread) rfl fun n _ => Leaves.pure ()
    refine ⟨m₁, hgrows, ?_⟩
    rw [bind_pure] at hshrunk
    rw [outcome_get_bind, if_pos hsize, hread]
    simp only
    rw [if_pos hverify]
    exact hshrunk
  · refine settles_of_eq ?_
    rw [outcome_get_bind, if_pos hsize, hread]
    simp only
    rw [if_neg hverify]
    split <;> rfl

/-- A move or a patch stores its source, if it stores anything, and drops it in the end. -/
theorem settles_makeTarget (hmakes : c.makesTarget) (hsited : m.stash.Sited m.files place) :
    c.Settles P place m (c.makeTarget P) := by
  rcases makeTarget_cases P c m with ⟨result, hrun⟩ | ⟨r, s, hneeds, hs⟩
  · exact settles_of_eq (congrArg Prod.snd (hrun m.canWrite))
  cases hwrite : m.canWrite with
  | false =>
    exact settles_of_shrunk (idle_of_dry hwrite hneeds hs).shrunk
  | true =>
    -- once the source is kept, entries are only removed
    have hrest : ∀ n : Machine, n.stash.Sited n.files place → Leaves (Machine.Shrunk place) (do
        writeTarget P c r s.data
        checkTarget P r
        dropSource r
        addWritten r.target.total) n := fun n hn =>
      Leaves.bind (idle_writeTarget r s.data n).shrunk fun _ n₁ _ h₁ =>
        Leaves.bind (idle_checkTarget r n₁).shrunk fun _ n₂ _ h₂ =>
          Leaves.bind (shrunk_dropSource r (h₂.sited (h₁.sited hn))) fun _ n₃ _ _ =>
            (idle_addWritten _ n₃).shrunk
    have hparts : outcome (makeTarget P c) m = outcome (keepSource r s >>= fun _ => do
        writeTarget P c r s.data
        checkTarget P r
        dropSource r
        addWritten r.target.total) m := by
      rw [makeTarget_of_needs hwrite hneeds hs, applyRecipe]
      simp only [bind_assoc]
    rw [Settles, hparts]
    by_cases hkeeps : Keeps r s m
    · refine settles_keep hsited (.source hmakes hneeds hs hkeeps) (source_verified hs hsited).2
        (outcome_keepSource hkeeps) hrest
    · have hnone := (keepSource_eq_ok hsited).mpr (.inr ⟨hkeeps, rfl⟩)
      rw [outcome_bind_of_ok hnone]
      exact settles_of_shrunk (hrest m hsited)

/-- **However a command ends**, it stored one entry at most, and only then removed any. -/
theorem run_grows (P : Primitives) (c : Command) (hsited : m.stash.Sited m.files place) :
    ∃ m₁, c.Grows P place m m₁ ∧ Machine.Shrunk place m₁ (outcome (c.run P) m).2 := by
  show c.Settles P place m (c.run P)
  rw [run]
  cases hverb : c.verb <;> simp only
  case abort | other => exact settles_of_eq rfl
  case new => exact settles_of_shrunk (idle_writeNewData m).shrunk
  case zero | erase => exact settles_of_shrunk (idle_clear m).shrunk
  case move | copy | bsdiff | imgdiff =>
    exact settles_makeTarget (by simp [makesTarget, hverb]) hsited
  case stash => exact settles_stashBlocks hverb hsited
  case free => exact settles_of_shrunk (shrunk_freeEntry hsited)

/-! ## What that means -/

variable {m₁ : Machine}

theorem Grows.touched (h : c.Grows P place m m₁) : m.Touched place m₁ := by
  rcases h with rfl | ⟨id, blocks, data, -, -, -, hstorable, rfl⟩
  · exact (refl_of (Machine.Shrunk place) m₁).touched
  · exact ⟨rfl, rfl, rfl, Stash.touched_stored hstorable data⟩

/-- An entry was there before, or the command stored it. -/
theorem Grows.entry (h : c.Grows P place m m₁) {id : String} {data : Bytes}
    (hdata : m₁.files.get? (place ++ [id]) = some (.file data)) :
    m.files.get? (place ++ [id]) = some (.file data) ∨ c.Stashes P m id data := by
  rcases h with rfl | ⟨id', blocks, data', hstashes, -, -, hstorable, rfl⟩
  · exact .inl hdata
  · change (Stash.stored m.files place id' data').get? _ = _ at hdata
    rw [Stash.get?_stored] at hdata
    split_ifs at hdata with hname
    · obtain rfl : id = id' := by simpa using hname
      cases hdata
      exact .inr hstashes
    · exact .inl hdata

/-- **A command touches nothing but its stash** among the files, however it ends. -/
theorem run_touched (P : Primitives) (c : Command) (hsited : m.stash.Sited m.files place) :
    m.Touched place (outcome (c.run P) m).2 := by
  obtain ⟨m₁, hgrows, hshrunk⟩ := run_grows P c hsited
  exact hgrows.touched.trans hshrunk.touched

/-- An entry that is there after a command was there before, or the command stored it. -/
theorem entry_of_run (hsited : m.stash.Sited m.files place) {id : String} {data : Bytes}
    (hid : Stash.validId id = true)
    (hdata : (outcome (c.run P) m).2.files.get? (place ++ [id]) = some (.file data)) :
    m.files.get? (place ++ [id]) = some (.file data) ∨ c.Stashes P m id data := by
  obtain ⟨m₁, hgrows, hshrunk⟩ := run_grows P c hsited
  exact hgrows.entry (hshrunk.files.entry id data hid hdata)

end Command

end BlockUpdate
