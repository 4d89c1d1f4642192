import BlockUpdate.Proofs.Places

/-!
# The files of a stash

A stash whose directory is there is described by what its names denote: each operation on an
entry succeeds under conditions on that entry's name alone, and changes nothing else.

- `Stash.Sited`: the stash directory is at a place.
- `contains_iff`, `entrySize?_eq_some`, `load?_eq_some`, `load?_congr`: looking at an entry.
- **`store_eq_ok`**, **`store_run`**: what storing an entry needs, and what it leaves.
- **`free_eq_ok`**, `free_run`: the same for removing one.
- `held`, `holding`: the entries of a stash, and how many there are.
-/

namespace BlockUpdate

namespace Stash

/-! ## Names -/

theorem plainName_of_validId {id : String} (h : validId id = true) : PlainName id := by
  obtain ⟨hne, hall⟩ : id ≠ "" ∧ ∀ c ∈ id.toList, c.isAlphanum = true := by
    simpa [validId] using h
  have hnot : ∀ c : Char, c.isAlphanum = false → c ∉ id.toList := by
    intro c hc hmem
    rw [hall c hmem] at hc
    cases hc
  refine ⟨hne, ?_, ?_, hnot _ (by decide), hnot _ (by decide)⟩
  · rintro rfl
    exact hnot '.' (by decide) (by decide)
  · rintro rfl
    exact hnot '.' (by decide) (by decide)

/-- The name under which an entry is prepared. -/
def temporaryName (id : String) : String := "." ++ id ++ ".partial"

theorem toList_temporaryName (id : String) :
    (temporaryName id).toList = '.' :: (id.toList ++ ".partial".toList) := by
  rw [temporaryName, String.toList_append, String.toList_append]
  rfl

theorem plainName_temporaryName {id : String} (h : validId id = true) :
    PlainName (temporaryName id) := by
  have hplain := plainName_of_validId h
  have hlength : ∀ {name : String}, temporaryName id = name → 9 ≤ name.toList.length := by
    rintro _ rfl
    rw [toList_temporaryName, List.length_cons, List.length_append]
    have : ".partial".toList.length = 8 := by decide
    omega
  refine ⟨fun h => ?_, fun h => ?_, fun h => ?_, ?_, ?_⟩
  · exact absurd (hlength h) (by decide)
  · exact absurd (hlength h) (by decide)
  · exact absurd (hlength h) (by decide)
  · rw [toList_temporaryName, List.mem_cons, List.mem_append]
    rintro (h | h | h)
    · exact absurd h (by decide)
    · exact hplain.noSlash h
    · exact absurd h (by decide)
  · rw [toList_temporaryName, List.mem_cons, List.mem_append]
    rintro (h | h | h)
    · exact absurd h (by decide)
    · exact hplain.noNul h
    · exact absurd h (by decide)

theorem utf8ByteSize_le_temporaryName (id : String) :
    id.utf8ByteSize ≤ (temporaryName id).utf8ByteSize := by
  rw [temporaryName, String.utf8ByteSize_append, String.utf8ByteSize_append]
  omega

/-- An entry is not what another one is prepared in. -/
theorem ne_temporaryName {id : String} (h : validId id = true) (other : String) :
    id ≠ temporaryName other := by
  rintro rfl
  obtain ⟨-, hall⟩ : temporaryName other ≠ "" ∧
      ∀ c ∈ (temporaryName other).toList, c.isAlphanum = true := by
    simpa [validId] using h
  have := hall '.' (by rw [toList_temporaryName]; exact List.mem_cons_self)
  exact absurd this (by decide)

/-! ## Places -/

/-- The directory of a stash is at a place. -/
structure Sited (s : Stash) (t : FileTree) (place : Place) : Prop where
  leads : t.Leads s.base.parts place
  named : s.base.isEmpty = false
  below : s.base.below = s.base.parts

variable {s s' : Stash} {t t' : FileTree} {place : Place} {id : String}

/-- Where a stash is depends on its directory alone. -/
theorem Sited.of_base (h : s.Sited t place) (hbase : s'.base = s.base) : s'.Sited t place :=
  ⟨hbase ▸ h.leads, hbase ▸ h.named, hbase ▸ h.below⟩

theorem Sited.mono (h : s.Sited t place)
    (hmore : ∀ p, t.get? p = some .directory → t'.get? p = some .directory) : s.Sited t' place :=
  ⟨h.leads.mono hmore, h.named, h.below⟩

theorem Sited.parts_join (h : s.Sited t place) {name : String} (hname : PlainName name) :
    (s.base.join name).parts = s.base.parts ++ [name] := by
  rw [Path.parts_join _ hname.noSlash, h.below]

theorem entryPath_of_validId (s : Stash) (hid : validId id = true) :
    s.entryPath id = .ok (s.base.join id) := if_pos hid

theorem entryPath_of_not_validId (s : Stash) (hid : ¬ validId id = true) :
    s.entryPath id = .error (.invalidId id) := if_neg hid

/-- What the name of an entry denotes. -/
theorem Sited.node (h : s.Sited t place) (hid : validId id = true) :
    t.node (s.base.join id) =
      if FileTree.maxName < id.utf8ByteSize then .error (.errno Errno.nameTooLong)
      else match t.get? (place ++ [id]) with
        | some found => .ok found
        | none => .error (.errno Errno.noEntry) :=
  h.leads.node (plainName_of_validId hid) (h.parts_join (plainName_of_validId hid))

/-! ## Looking -/

/-- Whether a name can be that of an entry. -/
def Entry (id : String) : Prop := validId id = true ∧ id.utf8ByteSize ≤ FileTree.maxName

/-- The two ways in which looking at an entry depends on its name. -/
theorem Sited.look_cases (h : s.Sited t place) (id : String) :
    (¬ Entry id ∧ s.contains t id = false ∧ s.entrySize? t id = none ∧
      ∀ size data, s.load? t id size ≠ .ok (some data)) ∨
    (Entry id ∧ s.entryPath id = .ok (s.base.join id) ∧
      t.node (s.base.join id) = match t.get? (place ++ [id]) with
        | some found => .ok found
        | none => .error (.errno Errno.noEntry)) := by
  by_cases hid : validId id = true
  · by_cases hsize : id.utf8ByteSize ≤ FileTree.maxName
    · refine .inr ⟨⟨hid, hsize⟩, s.entryPath_of_validId hid, ?_⟩
      rw [h.node hid, if_neg (by omega)]
    · have hnode : t.node (s.base.join id) = .error (.errno Errno.nameTooLong) := by
        rw [h.node hid, if_pos (by omega)]
      refine .inl ⟨fun h => hsize h.2, ?_, ?_, fun size data => ?_⟩
      · simp [contains, s.entryPath_of_validId hid, FileTree.isFile, hnode]
      · simp [entrySize?, s.entryPath_of_validId hid, FileTree.size?, hnode]
      · rw [load?, s.entryPath_of_validId hid]
        simp only [bind, Except.bind, hnode]
        intro h
        cases h
  · refine .inl ⟨fun h => hid h.1, ?_, ?_, fun size data => ?_⟩
    · simp [contains, s.entryPath_of_not_validId hid]
    · simp [entrySize?, s.entryPath_of_not_validId hid]
    · rw [load?, s.entryPath_of_not_validId hid]
      exact fun h => by cases h

/-- **An entry is there** if its name denotes a file. -/
theorem contains_iff (h : s.Sited t place) :
    s.contains t id = true ↔ Entry id ∧ ∃ data, t.get? (place ++ [id]) = some (.file data) := by
  rcases h.look_cases id with ⟨hid, hcontains, -, -⟩ | ⟨hid, hpath, hnode⟩
  · rw [hcontains]
    exact ⟨fun h => (Bool.false_ne_true h).elim, fun h => (hid h.1).elim⟩
  · rw [contains, hpath]
    show t.isFile (s.base.join id) = true ↔ _
    rw [FileTree.isFile, hnode]
    rcases t.get? (place ++ [id]) with _ | _ | _ <;> simp [hid]

/-- **The size of what has the name of an entry.** -/
theorem entrySize?_eq_some (h : s.Sited t place) {size : Nat} :
    s.entrySize? t id = some size ↔ Entry id ∧
      ((∃ data, t.get? (place ++ [id]) = some (.file data) ∧ data.size = size) ∨
        t.get? (place ++ [id]) = some .directory ∧ FileTree.directorySize = size) := by
  rcases h.look_cases id with ⟨hid, -, hnone, -⟩ | ⟨hid, hpath, hnode⟩
  · rw [hnone]
    exact ⟨fun h => (Option.some_ne_none _ h.symm).elim, fun h => (hid h.1).elim⟩
  · rw [entrySize?, hpath]
    show t.size? (s.base.join id) = some size ↔ _
    rw [FileTree.size?, hnode]
    rcases t.get? (place ++ [id]) with _ | _ | _ <;> simp [hid]

theorem entrySize?_eq_none (h : s.Sited t place) :
    s.entrySize? t id = none ↔ ¬ Entry id ∨ t.get? (place ++ [id]) = none := by
  rcases h.look_cases id with ⟨hid, -, hnone, -⟩ | ⟨hid, hpath, hnode⟩
  · exact ⟨fun _ => .inl hid, fun _ => hnone⟩
  · rw [entrySize?, hpath]
    show t.size? (s.base.join id) = none ↔ _
    rw [FileTree.size?, hnode]
    rcases t.get? (place ++ [id]) with _ | _ | _ <;> simp [hid]

/-- An entry has the size of what is at its place. -/
theorem entrySize?_congr {place' : Place} (h : s.Sited t place) (h' : s'.Sited t' place')
    (hget : t'.get? (place' ++ [id]) = t.get? (place ++ [id])) :
    s'.entrySize? t' id = s.entrySize? t id := by
  ext size
  rw [entrySize?_eq_some h, entrySize?_eq_some h', hget]

/-- What loading an entry gives, by what its path denotes. -/
theorem load?_of_entryPath {p : Path} (hp : s.entryPath id = .ok p) (t : FileTree) (size : Nat) :
    s.load? t id size =
      match t.node p with
      | .ok (.file data) => .ok (if data.size = size then some data else none)
      | .ok .directory =>
        if FileTree.directorySize = size then .error (.os (.errno Errno.isDirectory)) else .ok none
      | .error (.errno e) =>
        if e = Errno.noEntry then .ok none else .error (.os (.errno e))
      | .error e => .error (.os e) := by
  rw [load?, hp]
  change (match t.node p with
    | .ok (.file data) => _
    | .ok .directory => _
    | .error (.errno e) => if e = Errno.noEntry then _ else _
    | .error e => _ : Except StashError (Option Bytes)) = _
  rcases t.node p with e | data | _
  · cases e with
    | errno e =>
      show (if e = Errno.noEntry then _ else _) = (if e = Errno.noEntry then _ else _)
      split_ifs <;> rfl
    | _ => rfl
  · rfl
  · show (if FileTree.directorySize = size then _ else _) =
      (if FileTree.directorySize = size then _ else _)
    split_ifs <;> rfl

/-- **What can be loaded.** -/
theorem load?_eq_some (h : s.Sited t place) {size : Nat} {data : Bytes} :
    s.load? t id size = .ok (some data) ↔
      Entry id ∧ t.get? (place ++ [id]) = some (.file data) ∧ data.size = size := by
  rcases h.look_cases id with ⟨hid, -, -, hload⟩ | ⟨hid, hpath, hnode⟩
  · exact ⟨fun h => (hload size data h).elim, fun h => (hid h.1).elim⟩
  · rw [load?_of_entryPath hpath, hnode]
    rcases t.get? (place ++ [id]) with _ | found | _
    · simp
    · show Except.ok (if found.size = size then some found else none) = _ ↔ _
      split_ifs with hsize
      · simp only [Except.ok.injEq, Option.some.injEq, Node.file.injEq, hid, true_and]
        exact ⟨fun h => ⟨h, h ▸ hsize⟩, fun h => h.1⟩
      · simp only [Except.ok.injEq, reduceCtorEq, Option.some.injEq, Node.file.injEq, false_iff]
        rintro ⟨-, rfl, h⟩
        exact hsize h
    · show (if FileTree.directorySize = size then _ else _) = _ ↔ _
      split_ifs <;> simp

/-- A file is loaded if it has the wanted size. -/
theorem load?_of_file (h : s.Sited t place) (hid : Entry id) {data : Bytes}
    (hfile : t.get? (place ++ [id]) = some (.file data)) (size : Nat) :
    s.load? t id size = .ok (if data.size = size then some data else none) := by
  rcases h.look_cases id with ⟨hnot, -⟩ | ⟨-, hpath, hnode⟩
  · exact absurd hid hnot
  · rw [load?_of_entryPath hpath, hnode, hfile]

/-- What is not there is not loaded. -/
theorem load?_of_get?_eq_none (h : s.Sited t place) (hid : Entry id)
    (hnone : t.get? (place ++ [id]) = none) (size : Nat) : s.load? t id size = .ok none := by
  rcases h.look_cases id with ⟨hnot, -⟩ | ⟨-, hpath, hnode⟩
  · exact absurd hid hnot
  · rw [load?_of_entryPath hpath, hnode, hnone]
    rfl

/-- **Loading an entry depends on that entry alone.** -/
theorem load?_congr {place' : Place} (h : s.Sited t place) (h' : s'.Sited t' place')
    (hget : t'.get? (place' ++ [id]) = t.get? (place ++ [id])) (size : Nat) :
    s'.load? t' id size = s.load? t id size := by
  by_cases hid : validId id = true
  · rw [load?_of_entryPath (s'.entryPath_of_validId hid), load?_of_entryPath (s.entryPath_of_validId hid),
      h.node hid, h'.node hid, hget]
  · rw [load?, load?, s'.entryPath_of_not_validId hid, s.entryPath_of_not_validId hid]
    rfl

/-! ## Storing -/

/-- What storing an entry leaves. -/
def stored (t : FileTree) (place : Place) (id : String) (data : Bytes) : FileTree :=
  ((t.written (place ++ [temporaryName id]) data).erase (place ++ [temporaryName id])).put
    (place ++ [id]) (.file data)

/-- Whether an entry can be stored: its name and that of its preparation are free of
directories and not too long. -/
structure Storable (t : FileTree) (place : Place) (id : String) : Prop where
  valid : validId id = true
  size : (temporaryName id).utf8ByteSize ≤ FileTree.maxName
  temporary : t.get? (place ++ [temporaryName id]) ≠ some .directory
  entry : t.get? (place ++ [id]) ≠ some .directory

theorem Storable.isEntry (h : Storable t place id) : Entry id :=
  ⟨h.valid, Nat.le_trans (utf8ByteSize_le_temporaryName id) h.size⟩

theorem get?_stored (t : FileTree) (place : Place) (id : String) (data : Bytes) (q : Place) :
    (stored t place id data).get? q =
      if q = place ++ [id] then some (.file data)
      else if q = place ++ [temporaryName id] then none
      else t.get? q := by
  have hid : place ++ [id] ≠ [] := by simp
  have htemporary : place ++ [temporaryName id] ≠ [] := by simp
  rw [stored, FileTree.get?_put _ hid, FileTree.get?_erase _ htemporary,
    FileTree.get?_written _ htemporary]
  split_ifs <;> rfl

/-- Storing an entry makes and loses no directory. -/
theorem directory_stored (h : Storable t place id) (data : Bytes) (q : Place) :
    (stored t place id data).get? q = some .directory ↔ t.get? q = some .directory := by
  rw [get?_stored]
  split_ifs with hid htemporary
  · rw [hid]
    exact ⟨fun h => (by cases h), fun hq => absurd hq h.entry⟩
  · rw [htemporary]
    exact ⟨fun h => (by cases h), fun hq => absurd hq h.temporary⟩
  · rfl

/-- Storing an entry leaves what can be loaded under other names. -/
theorem load?_stored_of_ne (h : s.Sited t place) (hstorable : Storable t place id) (data : Bytes)
    {other : String} (hne : other ≠ id) (size : Nat) :
    s.load? (stored t place id data) other size = s.load? t other size := by
  by_cases hother : validId other = true
  · have hsited := h.mono fun q => (directory_stored hstorable data q).mpr
    refine load?_congr h hsited ?_ size
    rw [get?_stored, if_neg (by simpa using hne),
      if_neg (by simpa using ne_temporaryName hother id)]
  · rw [load?, load?, s.entryPath_of_not_validId hother]
    rfl

/-- A preparation that is complete takes the name of its entry. -/
theorem after_rename (h : s.Sited t place) (hid : validId id = true)
    (hsize : (temporaryName id).utf8ByteSize ≤ FileTree.maxName)
    (hdir : t.get? (place ++ [temporaryName id]) ≠ some .directory) (data : Bytes) :
    (t.written (place ++ [temporaryName id]) data).after
        (.rename (s.temporaryPath id) (s.base.join id)) =
      if t.get? (place ++ [id]) = some .directory then .error (.errno Errno.isDirectory)
      else .ok (stored t place id data) := by
  have htemporary : (s.temporaryPath id).parts = s.base.parts ++ [temporaryName id] :=
    h.parts_join (plainName_temporaryName hid)
  have hget := FileTree.get?_written t (p := place ++ [temporaryName id]) (by simp) data
  have hfilled : (t.written (place ++ [temporaryName id]) data).Leads s.base.parts place :=
    h.leads.mono fun q => (FileTree.directory_iff_of_get? hget hdir (by simp) q).mpr
  have hold := (hget (place ++ [temporaryName id])).trans (if_pos rfl)
  have hnew : (t.written (place ++ [temporaryName id]) data).get? (place ++ [id]) =
      t.get? (place ++ [id]) := by
    rw [hget, if_neg]
    intro heq
    exact ne_temporaryName hid id (by simpa using heq)
  rw [FileTree.after, hfilled.locate_of_le (plainName_temporaryName hid) htemporary hsize,
    hfilled.locate_of_le (plainName_of_validId hid) (h.parts_join (plainName_of_validId hid))
      (Nat.le_trans (utf8ByteSize_le_temporaryName id) hsize)]
  simp only [bind, Except.bind, hold, hnew]
  rcases t.get? (place ++ [id]) with _ | _ | _ <;> rfl

/-- How storing an entry ends: if it cannot be stored, then either nothing was done, or it was
prepared in vain. -/
theorem outcome_store (h : s.Sited t place) (id : String) (data : Bytes) :
    (Storable t place id ∧ outcome (s.store id data) t = (.ok (), stored t place id data)) ∨
    (¬ Storable t place id ∧ ∃ e, outcome (s.store id data) t = (.error e, t) ∨
      t.get? (place ++ [temporaryName id]) ≠ some .directory ∧
        outcome (s.store id data) t =
          (.error e, t.written (place ++ [temporaryName id]) data)) := by
  by_cases hid : validId id = true
  case neg =>
    refine .inr ⟨fun h => hid h.valid, .invalidId id, .inl ?_⟩
    rw [store, outcome_bind, outcome_fileLook, s.entryPath_of_not_validId hid]
  case pos =>
  have hplain := plainName_temporaryName hid
  have htemporary : (s.temporaryPath id).parts = s.base.parts ++ [temporaryName id] :=
    h.parts_join hplain
  have hperform : outcome (s.store id data) t =
      ((outcome (FileM.perform (s.storeSteps id (s.base.join id) data)) t).1.mapError .os,
        (outcome (FileM.perform (s.storeSteps id (s.base.join id) data)) t).2) := by
    rw [store, outcome_bind_of_ok (a := s.base.join id) (t := t)
      (by rw [outcome_fileLook, s.entryPath_of_validId hid]), outcome_fileMapError]
  rw [hperform, storeSteps]
  by_cases hfits : (temporaryName id).utf8ByteSize ≤ FileTree.maxName ∧
      t.get? (place ++ [temporaryName id]) ≠ some .directory
  case neg =>
    refine .inr ⟨fun h => hfits ⟨h.size, h.temporary⟩, ?_⟩
    rw [FileM.outcome_perform_cons]
    rcases hcreate : t.after (.create (s.temporaryPath id)) with e | t₁
    · exact ⟨.os e, .inl rfl⟩
    · have := (FileM.after_create h.leads hplain htemporary).mp hcreate
      exact absurd ⟨this.1, this.2.1⟩ hfits
  case pos =>
  rw [FileM.outcome_perform_fill h.leads hplain htemporary hfits.1 hfits.2,
    FileM.outcome_perform_cons, after_rename h hid hfits.1 hfits.2]
  by_cases hdir : t.get? (place ++ [id]) = some .directory
  · rw [if_pos hdir]
    exact .inr ⟨fun h => h.entry hdir, _, .inr ⟨hfits.2, rfl⟩⟩
  · rw [if_neg hdir]
    have hstorable : Storable t place id := ⟨hid, hfits.1, hfits.2, hdir⟩
    have hsited : (stored t place id data).Leads s.base.parts place :=
      h.leads.mono fun q hq => (directory_stored hstorable data q).mpr hq
    have hsync : outcome (FileM.perform [.sync s.base]) (stored t place id data) =
        (.ok (), stored t place id data) :=
      FileM.outcome_perform_cons_of_ok (FileM.after_sync (hsited.node_self h.named)) []
    simp only [hsync]
    exact .inl ⟨hstorable, rfl⟩

/-- **Storing an entry** succeeds exactly when it can be stored. -/
theorem store_eq_ok (h : s.Sited t place) (data : Bytes) :
    outcome (s.store id data) t = (.ok (), t') ↔
      Storable t place id ∧ t' = stored t place id data := by
  rcases outcome_store h id data with ⟨hstorable, hrun⟩ | ⟨hnot, e, hrun | ⟨-, hrun⟩⟩
  · rw [hrun]
    exact ⟨fun hok => ⟨hstorable, (congrArg Prod.snd hok).symm⟩, fun ⟨_, ht⟩ => by rw [ht]⟩
  · rw [hrun]
    exact ⟨fun hok => (nomatch congrArg Prod.fst hok), fun h => absurd h.1 hnot⟩
  · rw [hrun]
    exact ⟨fun hok => (nomatch congrArg Prod.fst hok), fun h => absurd h.1 hnot⟩

/-! ## Removing -/

/-- **Removing an entry**, which need not be there. -/
theorem free_eq_ok (h : s.Sited t place) :
    outcome (s.free id) t = (.ok (), t') ↔
      Entry id ∧ t.get? (place ++ [id]) ≠ some .directory ∧ t' = t.removed (place ++ [id]) := by
  by_cases hid : validId id = true
  case neg =>
    refine ⟨fun hok => ?_, fun h => absurd h.1.1 hid⟩
    rw [free, outcome_bind, outcome_fileLook, s.entryPath_of_not_validId hid] at hok
    cases congrArg Prod.fst hok
  case pos =>
  have hplain := plainName_of_validId hid
  have hremove : outcome (FileM.removeIfPresent (s.base.join id)) t = (.ok (), t') ↔ _ :=
    FileM.removeIfPresent_eq_ok h.leads hplain (h.parts_join hplain)
  rw [free, outcome_bind_of_ok (a := s.base.join id) (t := t)
    (by rw [outcome_fileLook, s.entryPath_of_validId hid]), outcome_fileMapError]
  constructor
  · intro hok
    obtain ⟨hfst, hsnd⟩ := Prod.ext_iff.mp hok
    have := hremove.mp (Prod.ext (mapError_eq_ok.mp hfst) hsnd)
    exact ⟨⟨hid, this.1⟩, this.2⟩
  · rintro ⟨⟨-, hsize⟩, hdir, rfl⟩
    rw [hremove.mpr ⟨hsize, hdir, rfl⟩]
    rfl

/-! ## Listing -/

/-- The entry that a node of a stash at a place is. -/
def entryOf? (place : Place) : Place × Node → Option (String × Bytes)
  | (at_, .file data) =>
    match at_.getLast? with
    | some name => if at_.dropLast = place ∧ validId name = true then some (name, data) else none
    | none => none
  | (_, .directory) => none

/-- The entries of a stash at a place. -/
def held (t : FileTree) (place : Place) : List (String × Bytes) :=
  t.nodes.filterMap (entryOf? place)

/-- What is listed are the names of the entries. -/
theorem entries_eq (h : s.Sited t place) :
    s.entries t = .ok (((held t place).map (·.1)).mergeSort (· ≤ ·)) := by
  rw [entries, FileTree.children, h.leads.locate_self h.named]
  simp only [bind, Except.bind, pure, Except.pure, h.leads.directory]
  show Except.ok (List.mergeSort (List.filterMap _ (List.filterMap _ t.nodes)) _) = _
  rw [held, List.filterMap_filterMap, List.map_filterMap]
  congr 3
  funext entry
  obtain ⟨at_, found⟩ := entry
  rcases hname : at_.getLast? with _ | name
  · cases found <;> simp [entryOf?, hname]
  · by_cases hplace : at_.dropLast = place
    · cases found <;> by_cases hid : validId name = true <;> simp [entryOf?, hname, hplace, hid]
    · cases found <;> simp [entryOf?, hname, hplace]

/-- The blocks that an entry is counted as. -/
def entryBlocks (s : Stash) (t : FileTree) (id : String) : Nat :=
  (s.entrySize? t id).getD 0 / blockSize

/-- The blocks that all entries are counted as. -/
def heldBlocks (s : Stash) (t : FileTree) (place : Place) : Nat :=
  ((held t place).map fun entry => s.entryBlocks t entry.1).sum

/-- The number of entries, and the number of blocks in them. -/
def holding (s : Stash) (t : FileTree) : Except StashError (Nat × Nat) := do
  let ids ← s.entries t
  return (ids.length, (ids.map fun id => (s.entrySize? t id).getD 0 / blockSize).sum)

theorem holding_eq (h : s.Sited t place) :
    s.holding t = .ok ((held t place).length, s.heldBlocks t place) := by
  have hperm := List.mergeSort_perm ((held t place).map (·.1)) fun a b => decide (a ≤ b)
  have hsum := (hperm.map fun id => (s.entrySize? t id).getD 0 / blockSize).sum_nat
  rw [List.map_map] at hsum
  rw [holding, entries_eq h]
  show Except.ok (_, _) = _
  rw [hsum, List.length_mergeSort, List.length_map]
  rfl

end Stash

namespace Machine

/-- A machine that counts what its stash at a place holds. -/
def counted (m : Machine) (place : Place) : Machine :=
  { m with
    stashedEntries := m.stashedEntries + (Stash.held m.files place).length
    stashedBlocks := m.stashedBlocks + ((Stash.held m.files place).map fun entry =>
      (m.stash.entrySize? m.files entry.1).getD 0 / blockSize).sum }

theorem countStash_of_holding {m : Machine} {entries blocks : Nat}
    (h : m.stash.holding m.files = .ok (entries, blocks)) :
    m.countStash = .ok { m with
      stashedEntries := m.stashedEntries + entries
      stashedBlocks := m.stashedBlocks + blocks } := by
  obtain ⟨ids, hids, h⟩ := except_bind_eq_ok.mp h
  obtain ⟨rfl, rfl⟩ := Prod.ext_iff.mp (Except.ok.inj h)
  rw [countStash, hids]
  rfl

/-- What a stash holds can be counted. -/
theorem countStash_eq {m : Machine} {place : Place} (h : m.stash.Sited m.files place) :
    m.countStash = .ok (m.counted place) := countStash_of_holding (Stash.holding_eq h)

end Machine

end BlockUpdate
