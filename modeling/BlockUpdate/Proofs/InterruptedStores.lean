import BlockUpdate.Proofs.InterruptedSteps
import BlockUpdate.Proofs.StashMap

/-!
# An entry whose store is cut short

New data is prepared in a file that no entry is named like, and takes the name of its entry at once.
So wherever storing is interrupted, the entry is the one before or complete, and what is left of the
preparation is overwritten by the next one.

- `Stash.SameEntry`, `Stash.Complete`: an entry looks the same in two trees, or has all its data.
- `Stash.Prepared`: nothing but the preparation of an entry differs.
- **`interrupted_store_cases`**, **`seen_of_interrupted`**: what an interruption leaves, and what is
  seen of the entries then.
- `exists_store_iff`: what storing an entry needs.
- **`Stash.interrupted_store`**: the entries after an interruption and after a later store.
-/

namespace BlockUpdate

open FileTree

namespace Stash

variable {s : Stash} {t u u' : FileTree} {place : Place} {id other : String} {data data' : Bytes}

/-! ## What is seen of an entry -/

/-- One entry looks the same in two trees. -/
structure SameEntry (s : Stash) (t u : FileTree) (id : String) : Prop where
  contains : s.contains u id = s.contains t id
  entrySize? : s.entrySize? u id = s.entrySize? t id
  load? : ∀ size, s.load? u id size = s.load? t id size

/-- An entry is there with all its data. -/
structure Complete (s : Stash) (t : FileTree) (id : String) (data : Bytes) : Prop where
  contains : s.contains t id = true
  entrySize? : s.entrySize? t id = some data.size
  load? : ∀ size, s.load? t id size = .ok (if data.size = size then some data else none)

/-- An entry looks the same where the same is at its place. -/
theorem sameEntry_of_get? (h : s.Sited t place) (h' : s.Sited u place)
    (hsame : validId id = true → u.get? (place ++ [id]) = t.get? (place ++ [id])) :
    s.SameEntry t u id := by
  by_cases hid : validId id = true
  · refine ⟨?_, entrySize?_congr h h' (hsame hid), load?_congr h h' (hsame hid)⟩
    rw [Bool.eq_iff_iff, contains_iff h, contains_iff h', hsame hid]
  · have hpath := s.entryPath_of_not_validId hid
    constructor
    · rw [contains, contains, hpath]
    · rw [entrySize?, entrySize?, hpath]
    · intro size
      rw [load?, load?, hpath]
      rfl

theorem complete_of_get? (h : s.Sited t place) (hid : Entry id)
    (hfile : t.get? (place ++ [id]) = some (.file data)) : s.Complete t id data where
  contains := (contains_iff h).mpr ⟨hid, data, hfile⟩
  entrySize? := (entrySize?_eq_some h).mpr ⟨hid, .inl ⟨data, hfile, rfl⟩⟩
  load? := load?_of_file h hid hfile

/-! ## Trees that an interruption leaves -/

/-- Two trees in which nothing but the preparation of an entry differs. -/
structure Prepared (place : Place) (id : String) (t u : FileTree) : Prop where
  directories : ∀ q, u.get? q = some .directory ↔ t.get? q = some .directory
  elsewhere : ∀ q, q ≠ place ++ [temporaryName id] → u.get? q = t.get? q

theorem prepared_refl (place : Place) (id : String) (t : FileTree) : Prepared place id t t :=
  ⟨fun _ => Iff.rfl, fun _ _ => rfl⟩

theorem prepared_of_replaced (hdir : t.get? (place ++ [temporaryName id]) ≠ some .directory)
    (h : t.Replaced (place ++ [temporaryName id]) data u) : Prepared place id t u :=
  ⟨h.directory_iff hdir, fun _ => h.get?_of_ne⟩

/-- What a stash has at the place of an entry is no preparation. -/
theorem Prepared.entry (h : Prepared place id t u) (hother : validId other = true) :
    u.get? (place ++ [other]) = t.get? (place ++ [other]) := by
  refine h.elsewhere _ fun heq => ?_
  exact ne_temporaryName hother id (by simpa using heq)

/-- **Where an interruption of storing falls**: before the entry is there, or behind that. -/
theorem interrupted_store_cases (h : s.Sited t place) (hid : validId id = true)
    (hu : Interrupted (s.storeSteps id (s.base.join id) data) t u) :
    Prepared place id t u ∨ Storable t place id ∧ u = stored t place id data := by
  have hplain := plainName_temporaryName hid
  have hparts : (s.temporaryPath id).parts = s.base.parts ++ [temporaryName id] :=
    h.parts_join hplain
  by_cases hfits : (temporaryName id).utf8ByteSize ≤ maxName ∧
      t.get? (place ++ [temporaryName id]) ≠ some .directory
  case neg =>
    -- not even the first step can be done
    rcases hu with _ | _ | ⟨hcreate, -⟩
    · exact .inl (prepared_refl place id t)
    · have := (FileM.after_create h.leads hplain hparts).mp hcreate
      exact absurd ⟨this.1, this.2.1⟩ hfits
  case pos =>
  obtain ⟨hsize, hdir⟩ := hfits
  have hp := h.leads.locate_of_le hplain hparts hsize
  rw [storeSteps, interrupted_fill hp hdir] at hu
  rcases hu with rfl | rfl | ⟨n, rfl⟩ | hu
  · exact .inl (prepared_refl place id u)
  · exact .inl (prepared_of_replaced hdir (replaced_put hdir _))
  · exact .inl (prepared_of_replaced hdir (replaced_written hdir _))
  rcases hu with _ | _ | ⟨hrename, hu⟩
  · exact .inl (prepared_of_replaced hdir (replaced_written hdir data))
  rw [after_rename h hid hsize hdir] at hrename
  split_ifs at hrename with hentry
  obtain rfl := Except.ok.inj hrename
  refine .inr ⟨⟨hid, hsize, hdir, hentry⟩, ?_⟩
  rcases hu with _ | _ | ⟨hsync, hu⟩
  · rfl
  · obtain ⟨_, -, hsame⟩ := except_bind_eq_ok.mp hsync
    obtain rfl := Except.ok.inj hsame
    exact interrupted_nil.mp hu

/-! ## Interrupted stores -/

/-- Once an entry is stored it is complete, and nothing else is seen to have changed. -/
theorem complete_stored (h : s.Sited t place) (hstorable : Storable t place id) (data : Bytes) :
    s.Complete (stored t place id data) id data ∧
      ∀ other ≠ id, s.SameEntry t (stored t place id data) other := by
  have hsited := h.mono fun q => (directory_stored hstorable data q).mpr
  refine ⟨complete_of_get? hsited hstorable.isEntry (by rw [get?_stored, if_pos rfl]), ?_⟩
  intro other hne
  refine sameEntry_of_get? h hsited fun hother => ?_
  rw [get?_stored, if_neg (by simpa using hne), if_neg (by simpa using ne_temporaryName hother id)]

/-- The name of a stored entry is listed with the others. -/
theorem entries_stored (h : s.Sited t place) (hdistinct : t.Distinct)
    (hstorable : Storable t place id) (data : Bytes) :
    ∃ ids ids', s.entries t = .ok ids ∧ s.entries (stored t place id data) = .ok ids' ∧
      ids'.Pairwise (· < ·) ∧ ∀ other, other ∈ ids' ↔ other = id ∨ other ∈ ids := by
  have hsited := h.mono fun q => (directory_stored hstorable data q).mpr
  obtain ⟨ids, hids, -, hmem⟩ := entries_listed h hdistinct
  obtain ⟨ids', hids', hsorted, hmem'⟩ :=
    entries_listed hsited (distinct_stored hdistinct place id data)
  refine ⟨ids, ids', hids, hids', hsorted, fun other => ?_⟩
  rw [hmem', hmem, get?_stored]
  by_cases hother : other = id
  · simp [hother, hstorable.valid]
  · rw [if_neg (by simpa using hother)]
    refine ⟨fun ⟨hvalid, hfile⟩ => .inr ⟨hvalid, ?_⟩, ?_⟩
    · rwa [if_neg (by simpa using ne_temporaryName hvalid id)] at hfile
    · rintro (heq | ⟨hvalid, hfile⟩)
      · exact absurd heq hother
      · rw [if_neg (by simpa using ne_temporaryName hvalid id)]
        exact ⟨hvalid, hfile⟩

/-- A preparation is not listed. -/
theorem entries_prepared (h : s.Sited t place) (hdistinct : t.Distinct) (hdistinct' : u.Distinct)
    (hprepared : Prepared place id t u) : s.entries u = s.entries t := by
  have hsited := h.mono fun q => (hprepared.directories q).mpr
  obtain ⟨ids, hids, hsorted, hmem⟩ := entries_listed h hdistinct
  obtain ⟨ids', hids', hsorted', hmem'⟩ := entries_listed hsited hdistinct'
  rw [hids, hids']
  refine congrArg Except.ok (hsorted'.eq_of_mem_iff hsorted fun other => ?_)
  rw [hmem', hmem]
  exact and_congr_right fun hvalid => by rw [hprepared.entry hvalid]

theorem SameEntry.trans {v : FileTree} (h : s.SameEntry t u id) (h' : s.SameEntry u v id) :
    s.SameEntry t v id :=
  ⟨h'.contains.trans h.contains, h'.entrySize?.trans h.entrySize?,
    fun size => (h'.load? size).trans (h.load? size)⟩

/-- **What is seen after an interruption**: the entry as it was or complete, all others as they
were. -/
theorem seen_of_interrupted (h : s.Sited t place) (hdistinct : t.Distinct) (hid : validId id = true)
    (hu : Interrupted (s.storeSteps id (s.base.join id) data) t u) :
    (∀ q, u.get? q = some .directory ↔ t.get? q = some .directory) ∧
    (∀ other ≠ id, s.SameEntry t u other) ∧
    (s.SameEntry t u id ∧ s.entries u = s.entries t ∨
      s.Complete u id data ∧ ∃ ids ids', s.entries t = .ok ids ∧ s.entries u = .ok ids' ∧
        ids'.Pairwise (· < ·) ∧ ∀ other, other ∈ ids' ↔ other = id ∨ other ∈ ids) := by
  rcases interrupted_store_cases h hid hu with hprepared | ⟨hstorable, rfl⟩
  · have hsited := h.mono fun q => (hprepared.directories q).mpr
    refine ⟨hprepared.directories, ?_, .inl ⟨?_, ?_⟩⟩
    · exact fun other _ => sameEntry_of_get? h hsited hprepared.entry
    · exact sameEntry_of_get? h hsited hprepared.entry
    · exact entries_prepared h hdistinct (hu.distinct hdistinct) hprepared
  · obtain ⟨hcomplete, hothers⟩ := complete_stored h hstorable data
    exact ⟨directory_stored hstorable data, hothers,
      .inr ⟨hcomplete, entries_stored h hdistinct hstorable data⟩⟩

/-- What storing an entry needs, by the length of its id. -/
theorem exists_store_iff (h : s.Sited t place) (hid : validId id = true) (data : Bytes) :
    (∃ t', outcome (s.store id data) t = (.ok (), t')) ↔
      id.length ≤ 246 ∧ t.get? (place ++ [temporaryName id]) ≠ some .directory ∧
        t.get? (place ++ [id]) ≠ some .directory := by
  constructor
  · rintro ⟨t', hstore⟩
    obtain ⟨hstorable, -⟩ := (store_eq_ok h data).mp hstore
    exact ⟨(size_temporaryName_le_iff hid).mp hstorable.size, hstorable.temporary, hstorable.entry⟩
  · rintro ⟨hlength, htemporary, hentry⟩
    have hsize := (size_temporaryName_le_iff hid).mpr hlength
    exact ⟨_, (store_eq_ok h data).mpr ⟨⟨hid, hsize, htemporary, hentry⟩, rfl⟩⟩

/-- **An interrupted store** leaves every other entry as it was. The entry itself is as it was
before, for all who look at it, or it is complete for all of them. A store that comes later succeeds
with its own data exactly if the name of the preparation is no longer than a name can be and no
directory has this name or that of the entry. -/
theorem interrupted_store {s : Stash} {t : FileTree} {place : Place} {id : String}
    (h : s.Sited t place) (hdistinct : t.Distinct) (hid : validId id = true) (data : Bytes)
    {u : FileTree} (hu : Interrupted (s.storeSteps id (s.base.join id) data) t u) :
    (∀ other ≠ id, s.SameEntry t u other) ∧
    (s.SameEntry t u id ∧ s.entries u = s.entries t ∨
      s.Complete u id data ∧ ∃ ids ids', s.entries t = .ok ids ∧ s.entries u = .ok ids' ∧
        ids'.Pairwise (· < ·) ∧ ∀ other, other ∈ ids' ↔ other = id ∨ other ∈ ids) ∧
    ∀ data', ((∃ u', outcome (s.store id data') u = (.ok (), u')) ↔
        id.length ≤ 246 ∧ t.get? (place ++ [temporaryName id]) ≠ some .directory ∧
          t.get? (place ++ [id]) ≠ some .directory) ∧
      ∀ u', outcome (s.store id data') u = (.ok (), u') →
        s.Complete u' id data' ∧ ∀ other ≠ id, s.SameEntry t u' other := by
  obtain ⟨hdirectories, hothers, hself⟩ := seen_of_interrupted h hdistinct hid hu
  have hsited := h.mono fun q => (hdirectories q).mpr
  refine ⟨hothers, hself, fun data' => ⟨?_, ?_⟩⟩
  · rw [exists_store_iff hsited hid, Ne, Ne, hdirectories, hdirectories]
  · intro u' hstore
    obtain ⟨hstorable, rfl⟩ := (store_eq_ok hsited data').mp hstore
    obtain ⟨hcomplete, hsame⟩ := complete_stored hsited hstorable data'
    exact ⟨hcomplete, fun other hne => (hothers other hne).trans (hsame other hne)⟩

/-! ## A stash directory -/

/-- A stash in the directory `s`. -/
def topStash : Stash := ⟨⟨["s"]⟩, false⟩

theorem sited_topStash (h : t.get? ["s"] = some .directory) : topStash.Sited t ["s"] := by
  have htop : t.Leads [] [] := ⟨rfl, rfl, get?_nil t⟩
  have hname : PlainName "s" := ⟨by decide, by decide, by decide, by decide, by decide⟩
  exact ⟨htop.child hname (by decide) h, by decide, by decide⟩

/-- An entry, and what is left of the preparation of a new one. -/
def leftoverTree : FileTree :=
  ⟨[(["s"], .directory), (["s", "aa"], .file ⟨#[1]⟩), (["s", ".aa.partial"], .file ⟨#[2, 3]⟩)]⟩

/-- The preparation is interrupted again, behind its first byte; what is stored then is complete. -/
theorem interrupted_store_leftoverTree :
    ∃ u u', Interrupted (topStash.storeSteps "aa" (topStash.base.join "aa") ⟨#[4, 5]⟩) leftoverTree
        u ∧
      u.get? ["s", ".aa.partial"] = some (.file ⟨#[4]⟩) ∧
      outcome (topStash.store "aa" ⟨#[6]⟩) u = (.ok (), u') ∧ topStash.Complete u' "aa" ⟨#[6]⟩ := by
  have hsited := sited_topStash (t := leftoverTree) rfl
  have hdir : leftoverTree.get? ["s", ".aa.partial"] ≠ some .directory := by decide
  have hplain : PlainName (temporaryName "aa") := plainName_temporaryName (by decide)
  have hp := hsited.leads.locate_of_le hplain (hsited.parts_join hplain) (by decide)
  have hu : Interrupted (topStash.storeSteps "aa" (topStash.base.join "aa") ⟨#[4, 5]⟩) leftoverTree
      (leftoverTree.written ["s", ".aa.partial"] ⟨#[4]⟩) :=
    (interrupted_fill hp hdir).mpr (.inr (.inr (.inl ⟨1, rfl⟩)))
  obtain ⟨-, -, hlater⟩ := interrupted_store hsited (by decide) (by decide) _ hu
  obtain ⟨hstores, hstored⟩ := hlater ⟨#[6]⟩
  obtain ⟨u', hu'⟩ := hstores.mpr ⟨by decide, by decide, by decide⟩
  exact ⟨_, u', hu, replaced_written hdir _ |>.get?_self, hu', (hstored u' hu').1⟩

/-- An id of `n` letters. -/
def lettersId (n : Nat) : String := String.ofList (List.replicate n 'a')

theorem length_lettersId (n : Nat) : (lettersId n).length = n := by
  rw [lettersId, String.length_ofList, List.length_replicate]

theorem validId_lettersId {n : Nat} (h : 0 < n) : validId (lettersId n) = true := by
  have hne : lettersId n ≠ "" := by
    intro hempty
    have hlength := length_lettersId n
    rw [hempty] at hlength
    exact absurd hlength (Nat.ne_of_lt h)
  have hall : ∀ c ∈ (lettersId n).toList, c.isAlphanum = true := by
    intro c hc
    rw [lettersId, String.toList_ofList] at hc
    rw [List.eq_of_mem_replicate hc]
    decide
  simpa [validId] using And.intro hne hall

/-- A stash without entries. -/
def emptyTree : FileTree := ⟨[(["s"], .directory)]⟩

/-- A stash with a directory in the place of an entry. -/
def occupiedTree : FileTree := ⟨[(["s"], .directory), (["s", "aa"], .directory)]⟩

/-- **Not every entry can be stored**: the preparation of a long id has no name in the stash, and a
directory keeps its name. -/
theorem not_stored_lettersId :
    topStash.Sited emptyTree ["s"] ∧ validId (lettersId 247) = true ∧
    topStash.Sited occupiedTree ["s"] ∧ validId "aa" = true ∧
    ∀ data,
      (∃ u, Interrupted (topStash.storeSteps (lettersId 247) (topStash.base.join (lettersId 247))
          data) emptyTree u ∧
        ∀ u', outcome (topStash.store (lettersId 247) data) u ≠ (.ok (), u')) ∧
      ∃ u, Interrupted (topStash.storeSteps "aa" (topStash.base.join "aa") data) occupiedTree u ∧
        ∀ u', outcome (topStash.store "aa" data) u ≠ (.ok (), u') := by
  have hempty := sited_topStash (t := emptyTree) rfl
  have hoccupied := sited_topStash (t := occupiedTree) rfl
  have hvalid : validId (lettersId 247) = true := validId_lettersId (by decide)
  refine ⟨hempty, hvalid, hoccupied, by decide, fun data => ⟨?_, ?_⟩⟩
  · refine ⟨_, .before _ _, fun u' hstore => ?_⟩
    have hlength := ((exists_store_iff hempty hvalid data).mp ⟨u', hstore⟩).1
    rw [length_lettersId] at hlength
    exact absurd hlength (by decide)
  · refine ⟨_, .before _ _, fun u' hstore => ?_⟩
    exact ((exists_store_iff hoccupied (by decide) data).mp ⟨u', hstore⟩).2.2 rfl

end Stash

end BlockUpdate
