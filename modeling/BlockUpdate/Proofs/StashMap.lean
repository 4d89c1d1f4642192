import BlockUpdate.Proofs.Distinct
import BlockUpdate.Proofs.DryRun
import BlockUpdate.Proofs.Ways
import Mathlib

/-!
# A stash is a map

What is done with a stash can be followed without its files: it is a map from ids to byte strings,
which is empty when the stash was made or wiped. The files that entries are prepared in are in the
same directory, but their names are not ids.

- `Stash.Call`, `Stash.answers`: calls of a stash, one after the other, whether they succeed or not.
- `Stash.MapStep`, `Stash.MapRun`: what calls do to a map, and what they answer.
- `Stash.Holds`: the entries of a stash are those of a map.
- **`Stash.Holds.step`**: what one call does to the entries, it does to the map.
- **`Stash.answers_of_fresh`**: so do all calls, from a stash that was made or wiped on.
-/

namespace BlockUpdate

open FileTree

namespace Stash

/-! ## Calls -/

/-- A call of a stash. -/
inductive Call
  | store (id : String) (data : Bytes)
  | load (id : String) (size : Nat)
  | free (id : String)
  | contains (id : String)
  | entrySize (id : String)
  | entries

/-- What a call answers when it succeeds. -/
inductive Answer
  | done
  | loaded (data : Option Bytes)
  | there (found : Bool)
  | size (size : Option Nat)
  | names (ids : List String)

/-- The id that a call is about. -/
def Call.id? : Call → Option String
  | .store id _ | .load id _ | .free id | .contains id | .entrySize id => some id
  | .entries => none

/-- A call of the stash. -/
def Call.perform (s : Stash) : Call → FileM StashError Answer
  | .store id data => do
    s.store id data
    return .done
  | .load id size => FileM.look fun t => (s.load? t id size).map .loaded
  | .free id => do
    s.free id
    return .done
  | .contains id => FileM.look fun t => .ok (.there (s.contains t id))
  | .entrySize id => FileM.look fun t => .ok (.size (s.entrySize? t id))
  | .entries => FileM.look fun t => (s.entries t).map .names

/-- Calls one after the other, also after one that fails. -/
def answers (s : Stash) : List Call → FileTree → List (Except StashError Answer) × FileTree
  | [], t => ([], t)
  | call :: rest, t =>
    let (answer, t) := outcome (call.perform s) t
    let (more, t) := s.answers rest t
    (answer :: more, t)

/-! ## Maps -/

/-- A map from ids to byte strings. -/
abbrev Contents := String → Option Bytes

/-- Ids whose entries can be prepared: a name of at most 255 bytes also begins with a dot and ends in
`.partial` then. -/
def Short (id : String) : Prop := validId id = true ∧ id.length ≤ 246

/-- What a call does to a map, and what it answers. -/
inductive MapStep (m : Contents) : Call → Except StashError Answer → Contents → Prop
  | store {id : String} (hid : Short id) (data : Bytes) :
    MapStep m (.store id data) (.ok .done) (Function.update m id (some data))
  | load {id : String} (hid : Short id) (size : Nat) :
    MapStep m (.load id size) (.ok (.loaded ((m id).filter (·.size = size)))) m
  | free {id : String} (hid : Short id) :
    MapStep m (.free id) (.ok .done) (Function.update m id none)
  | contains {id : String} (hid : Short id) :
    MapStep m (.contains id) (.ok (.there (m id).isSome)) m
  | entrySize {id : String} (hid : Short id) :
    MapStep m (.entrySize id) (.ok (.size ((m id).map (·.size)))) m
  /-- The keys are listed in order. -/
  | entries {ids : List String} (hsorted : ids.Pairwise (· < ·))
    (hkeys : ∀ id, id ∈ ids ↔ (m id).isSome = true) :
    MapStep m .entries (.ok (.names ids)) m
  /-- What is not an id is refused. -/
  | storeInvalid {id : String} (hid : ¬ validId id = true) (data : Bytes) :
    MapStep m (.store id data) (.error (.invalidId id)) m
  | loadInvalid {id : String} (hid : ¬ validId id = true) (size : Nat) :
    MapStep m (.load id size) (.error (.invalidId id)) m
  | freeInvalid {id : String} (hid : ¬ validId id = true) :
    MapStep m (.free id) (.error (.invalidId id)) m
  /-- It does not name an entry either. -/
  | containsInvalid {id : String} (hid : ¬ validId id = true) :
    MapStep m (.contains id) (.ok (.there false)) m
  | entrySizeInvalid {id : String} (hid : ¬ validId id = true) :
    MapStep m (.entrySize id) (.ok (.size none)) m
  /-- Whatever is answered for an id that is too long, it never becomes a key. -/
  | long {call : Call} {id : String} (hcall : call.id? = some id) (hid : validId id = true)
    (hlong : 246 < id.length) (answer : Except StashError Answer) :
    MapStep m call answer m

/-- What calls do to a map, one after the other, and what they answer. -/
inductive MapRun : Contents → List Call → List (Except StashError Answer) → Contents → Prop
  | nil (m : Contents) : MapRun m [] [] m
  | cons {m m₁ m₂ : Contents} {call : Call} {rest : List Call}
    {answer : Except StashError Answer} {more : List (Except StashError Answer)}
    (hstep : MapStep m call answer m₁) (hrun : MapRun m₁ rest more m₂) :
    MapRun m (call :: rest) (answer :: more) m₂

/-! ## Ids -/

variable {s : Stash} {t t' : FileTree} {place : Place} {id : String} {m : Contents}

theorem utf8ByteSize_of_validId (h : validId id = true) : id.utf8ByteSize = id.length := by
  obtain ⟨-, hall⟩ : id ≠ "" ∧ ∀ c ∈ id.toList, c.isAlphanum = true := by
    simpa [validId] using h
  refine utf8ByteSize_of_forall fun c hc => Char.utf8Size_eq_one_iff.mpr ?_
  have hc := hall c hc
  simp only [Char.isAlphanum, Char.isAlpha, Char.isUpper, Char.isLower, Char.isDigit,
    Bool.or_eq_true, Bool.and_eq_true, decide_eq_true_eq] at hc
  rcases hc with (⟨-, h⟩ | ⟨-, h⟩) | ⟨-, h⟩ <;> exact UInt32.le_trans h (by decide)

/-- **An id is short** exactly when the name that its entry is prepared under is. -/
theorem size_temporaryName_le_iff (h : validId id = true) :
    (temporaryName id).utf8ByteSize ≤ maxName ↔ id.length ≤ 246 := by
  rw [temporaryName, String.utf8ByteSize_append, String.utf8ByteSize_append,
    utf8ByteSize_of_validId h]
  have hends : (".".utf8ByteSize) = 1 ∧ (".partial".utf8ByteSize) = 8 := by decide
  have hmax : maxName = 255 := rfl
  omega

theorem Short.entry (h : Short id) : Entry id :=
  ⟨h.1, Nat.le_trans (utf8ByteSize_le_temporaryName id) ((size_temporaryName_le_iff h.1).mpr h.2)⟩

/-! ## The entries of a map -/

/-- The entries of a stash at a place are those of a map, and there are no directories among
them. -/
structure Holds (s : Stash) (place : Place) (t : FileTree) (m : Contents) : Prop where
  sited : s.Sited t place
  distinct : t.Distinct
  flat : ∀ name, t.get? (place ++ [name]) ≠ some .directory
  entry : ∀ id data, m id = some data ↔
    validId id = true ∧ t.get? (place ++ [id]) = some (.file data)
  short : ∀ id, m id ≠ none → Short id

namespace Holds

theorem eq_none_iff (h : s.Holds place t m) (hid : validId id = true) :
    m id = none ↔ t.get? (place ++ [id]) = none := by
  rw [Option.eq_none_iff_forall_ne_some, Option.eq_none_iff_forall_ne_some]
  refine ⟨fun hnone node hnode => ?_, fun hnone data hdata => hnone _ ((h.entry id data).mp hdata).2⟩
  cases node with
  | file data => exact hnone data ((h.entry id data).mpr ⟨hid, hnode⟩)
  | directory => exact h.flat id hnode

/-- What an entry is, found in the map. -/
theorem get? (h : s.Holds place t m) (hid : validId id = true) :
    t.get? (place ++ [id]) = (m id).map .file := by
  rcases hfound : m id with _ | data
  · exact (h.eq_none_iff hid).mp hfound
  · exact ((h.entry id data).mp hfound).2

/-- A tree with the same entries, and no directory among them. -/
theorem congr (h : s.Holds place t m) (hdistinct : t'.Distinct)
    (hdirectory : ∀ q, t'.get? q = some .directory ↔ t.get? q = some .directory)
    (hsame : ∀ name, validId name = true →
      t'.get? (place ++ [name]) = t.get? (place ++ [name])) : s.Holds place t' m where
  sited := h.sited.mono fun q => (hdirectory q).mpr
  distinct := hdistinct
  flat name hdir := h.flat name ((hdirectory _).mp hdir)
  entry id data := by
    rw [h.entry]
    exact and_congr_right fun hid => by rw [hsame id hid]
  short := h.short

/-- A tree in which one entry is another one. -/
theorem update (h : s.Holds place t m) (hdistinct : t'.Distinct) (hid : Short id)
    (found : Option Bytes)
    (hdirectory : ∀ q, t'.get? q = some .directory ↔ t.get? q = some .directory)
    (hsame : ∀ name, validId name = true →
      t'.get? (place ++ [name]) =
        if name = id then found.map .file else t.get? (place ++ [name])) :
    s.Holds place t' (Function.update m id found) where
  sited := h.sited.mono fun q => (hdirectory q).mpr
  distinct := hdistinct
  flat name hdir := h.flat name ((hdirectory _).mp hdir)
  entry name data := by
    by_cases hname : name = id
    · subst hname
      rw [Function.update_self, hsame name hid.1, if_pos rfl]
      cases found <;> simp [hid.1]
    · rw [Function.update_of_ne hname, h.entry]
      exact and_congr_right fun hvalid => by rw [hsame name hvalid, if_neg hname]
  short name hkey := by
    by_cases hname : name = id
    · exact hname ▸ hid
    · rw [Function.update_of_ne hname] at hkey
      exact h.short name hkey

/-! ## One call -/

theorem storable (h : s.Holds place t m) (hid : Short id) : Storable t place id :=
  ⟨hid.1, (size_temporaryName_le_iff hid.1).mpr hid.2, h.flat _, h.flat _⟩

/-- **What is stored** becomes the entry of its id. -/
theorem store (h : s.Holds place t m) (hid : Short id) (data : Bytes) :
    ∃ t', outcome (s.store id data) t = (.ok (), t') ∧
      s.Holds place t' (Function.update m id (some data)) := by
  have hstorable := h.storable hid
  refine ⟨_, (store_eq_ok h.sited data).mpr ⟨hstorable, rfl⟩,
    h.update (distinct_stored h.distinct place id data) hid (some data)
      (directory_stored hstorable data) fun name hname => ?_⟩
  rw [get?_stored]
  by_cases heq : name = id
  · rw [if_pos (by rw [heq]), if_pos heq]
    rfl
  · rw [if_neg (by simpa using heq), if_neg (by simpa using ne_temporaryName hname id), if_neg heq]

/-- **What cannot be stored** leaves the entries as they are. -/
theorem store_long (h : s.Holds place t m) (hlong : ¬ Storable t place id) (data : Bytes) :
    s.Holds place (outcome (s.store id data) t).2 m := by
  have hdistinct : (outcome (s.store id data) t).2.Distinct :=
    distinct_store s id data t h.distinct
  rcases outcome_store h.sited id data with ⟨hstorable, -⟩ | ⟨-, e, hrun | ⟨hdir, hrun⟩⟩
  · exact absurd hstorable hlong
  · rw [hrun]
    exact h
  · rw [hrun] at hdistinct ⊢
    have hget := get?_written t (p := place ++ [temporaryName id]) (by simp) data
    refine h.congr hdistinct (directory_iff_of_get? hget hdir (by simp)) fun name hname => ?_
    rw [hget, if_neg (by simpa using ne_temporaryName hname id)]

/-- **What is removed** is no entry any more, whether it was one or not. -/
theorem free (h : s.Holds place t m) (hid : Short id) :
    ∃ t', outcome (s.free id) t = (.ok (), t') ∧
      s.Holds place t' (Function.update m id none) := by
  have hget := get?_removed t (h.flat id)
  refine ⟨_, (free_eq_ok h.sited).mpr ⟨hid.entry, h.flat id, rfl⟩,
    h.update (h.distinct.removed _) hid none
      (directory_iff_of_get? hget (h.flat id) (by simp)) fun name _ => ?_⟩
  rw [hget]
  simp

/-- **What is loaded** is the entry of the id, if this has the wanted size. -/
theorem load? (h : s.Holds place t m) (hid : Short id) (size : Nat) :
    s.load? t id size = .ok ((m id).filter (·.size = size)) := by
  rcases hfound : m id with _ | data
  · exact load?_of_get?_eq_none h.sited hid.entry ((h.eq_none_iff hid.1).mp hfound) size
  · rw [load?_of_file h.sited hid.entry ((h.entry id data).mp hfound).2, Option.filter_some]
    simp

theorem contains (h : s.Holds place t m) (hid : Short id) :
    s.contains t id = (m id).isSome := by
  rw [Bool.eq_iff_iff, contains_iff h.sited, h.get? hid.1]
  cases m id <;> simp [hid.entry]

theorem entrySize? (h : s.Holds place t m) (hid : Short id) :
    s.entrySize? t id = (m id).map (·.size) := by
  ext size
  rw [entrySize?_eq_some h.sited, h.get? hid.1]
  cases m id <;> simp [hid.entry]

end Holds

/-- A removal that fails leaves the files as they are. -/
theorem free_eq_error {e : StashError} (h : outcome (s.free id) t = (.error e, t')) : t' = t := by
  rw [Stash.free, outcome_bind, outcome_fileLook] at h
  rcases hpath : s.entryPath id with e' | p
  · rw [hpath] at h
    exact (congrArg Prod.snd h).symm
  · rw [hpath] at h
    change outcome (FileM.mapError StashError.os (FileM.removeIfPresent p)) t = _ at h
    rw [outcome_fileMapError] at h
    obtain ⟨hfst, rfl⟩ := Prod.ext_iff.mp h
    obtain ⟨e', he, -⟩ := mapError_eq_error.mp hfst
    exact FileM.removeIfPresent_eq_error (Prod.ext he rfl)

/-- **What cannot be a key** is not removed. -/
theorem Holds.free_long (h : s.Holds place t m) (hid : validId id = true) (hlong : ¬ Short id) :
    s.Holds place (outcome (s.free id) t).2 m := by
  have hnone : t.get? (place ++ [id]) = none :=
    (h.eq_none_iff hid).mp (not_not.mp fun hkey => hlong (h.short id hkey))
  rcases hrun : outcome (s.free id) t with ⟨e | ⟨⟩, t'⟩
  · exact free_eq_error hrun ▸ h
  · obtain ⟨-, -, rfl⟩ := (free_eq_ok h.sited).mp hrun
    rwa [removed, hnone]

/-- No two entries have one name. -/
theorem nodup_names (h : t.Distinct) (place : Place) : ((held t place).map (·.1)).Nodup := by
  refine (List.nodup_map_iff_inj_on (nodup_held h place)).mpr ?_
  rintro ⟨name, data⟩ hdata ⟨_, other⟩ hother rfl
  have hfile := ((mem_held_iff h).mp hdata).1
  rw [((mem_held_iff h).mp hother).1] at hfile
  cases hfile
  rfl

/-- **The files that have names of entries** are listed in order. -/
theorem entries_listed (h : s.Sited t place) (hdistinct : t.Distinct) :
    ∃ ids, s.entries t = .ok ids ∧ ids.Pairwise (· < ·) ∧
      ∀ id, id ∈ ids ↔ validId id = true ∧ ∃ data, t.get? (place ++ [id]) = some (.file data) := by
  have hnames : ∀ id, id ∈ (held t place).map (·.1) ↔
      validId id = true ∧ ∃ data, t.get? (place ++ [id]) = some (.file data) := by
    intro id
    rw [List.mem_map]
    constructor
    · rintro ⟨⟨name, data⟩, hmem, rfl⟩
      obtain ⟨hfile, hid⟩ := (mem_held_iff hdistinct).mp hmem
      exact ⟨hid, data, hfile⟩
    · rintro ⟨hid, data, hfile⟩
      exact ⟨(id, data), (mem_held_iff hdistinct).mpr ⟨hfile, hid⟩, rfl⟩
  have hperm := List.mergeSort_perm ((held t place).map (·.1)) fun a b => decide (a ≤ b)
  refine ⟨_, entries_eq h, ?_, fun id => hperm.mem_iff.trans (hnames id)⟩
  have hsorted : (((held t place).map (·.1)).mergeSort fun a b => decide (a ≤ b)).Pairwise
      fun a b => decide (a ≤ b) = true := by
    refine List.pairwise_mergeSort (fun a b c hab hbc => ?_) (fun a b => ?_) _
    · exact decide_eq_true (String.le_trans (of_decide_eq_true hab) (of_decide_eq_true hbc))
    · simpa using String.le_total a b
  refine (hsorted.and (hperm.nodup_iff.mpr (nodup_names hdistinct place))).imp fun {a b} hab => ?_
  exact String.not_le.mp fun hba => hab.2 (String.le_antisymm (of_decide_eq_true hab.1) hba)

/-- **The keys of the map** are listed in order. -/
theorem Holds.entries (h : s.Holds place t m) :
    ∃ ids, s.entries t = .ok ids ∧ ids.Pairwise (· < ·) ∧
      ∀ id, id ∈ ids ↔ (m id).isSome = true := by
  obtain ⟨ids, hids, hsorted, hmem⟩ := entries_listed h.sited h.distinct
  refine ⟨ids, hids, hsorted, fun id => (hmem id).trans ?_⟩
  rw [Option.isSome_iff_exists, ← exists_and_left]
  exact exists_congr fun data => (h.entry id data).symm

/-- What is not an id is refused, and nothing is changed. -/
theorem perform_invalid (s : Stash) {call : Call} (hcall : call.id? = some id)
    (hid : ¬ validId id = true) (t : FileTree) :
    (outcome (call.perform s) t).2 = t ∧
      MapStep m call (outcome (call.perform s) t).1 m := by
  have hpath := s.entryPath_of_not_validId hid
  cases call with
  | store other data =>
    obtain rfl : other = id := Option.some.inj hcall
    have hrun : outcome (s.store other data) t = (.error (.invalidId other), t) := by
      rw [store, outcome_bind, outcome_fileLook, hpath]
    rw [Call.perform, outcome_bind_of_error hrun]
    exact ⟨rfl, .storeInvalid hid data⟩
  | load other size =>
    obtain rfl : other = id := Option.some.inj hcall
    rw [Call.perform, outcome_fileLook, load?, hpath]
    exact ⟨rfl, .loadInvalid hid size⟩
  | free other =>
    obtain rfl : other = id := Option.some.inj hcall
    have hrun : outcome (s.free other) t = (.error (.invalidId other), t) := by
      rw [free, outcome_bind, outcome_fileLook, hpath]
    rw [Call.perform, outcome_bind_of_error hrun]
    exact ⟨rfl, .freeInvalid hid⟩
  | contains other =>
    obtain rfl : other = id := Option.some.inj hcall
    rw [Call.perform, outcome_fileLook, contains, hpath]
    exact ⟨rfl, .containsInvalid hid⟩
  | entrySize other =>
    obtain rfl : other = id := Option.some.inj hcall
    rw [Call.perform, outcome_fileLook, entrySize?, hpath]
    exact ⟨rfl, .entrySizeInvalid hid⟩
  | entries => cases hcall

/-- What a call does with an id that is too long leaves the entries as they are. -/
theorem Holds.long (h : s.Holds place t m) {call : Call} (hcall : call.id? = some id)
    (hid : validId id = true) (hlong : 246 < id.length) :
    s.Holds place (outcome (call.perform s) t).2 m := by
  have hnot : ¬ Short id := fun h => absurd h.2 (by omega)
  cases call with
  | store other data =>
    obtain rfl : other = id := Option.some.inj hcall
    have hstore := h.store_long (fun hstorable =>
      hnot ⟨hid, (size_temporaryName_le_iff hid).mp hstorable.size⟩) data
    rw [Call.perform, outcome_bind]
    rcases hrun : outcome (s.store other data) t with ⟨_ | _, _⟩ <;> rwa [hrun] at hstore
  | load other size => exact h
  | free other =>
    obtain rfl : other = id := Option.some.inj hcall
    have hfree := h.free_long hid hnot
    rw [Call.perform, outcome_bind]
    rcases hrun : outcome (s.free other) t with ⟨_ | _, _⟩ <;> rwa [hrun] at hfree
  | contains other => exact h
  | entrySize other => exact h
  | entries => cases hcall

/-- **What one call does to the entries**, it does to the map. -/
theorem Holds.step (h : s.Holds place t m) (call : Call) :
    ∃ m', MapStep m call (outcome (call.perform s) t).1 m' ∧
      s.Holds place (outcome (call.perform s) t).2 m' := by
  -- ids that cannot be those of entries first
  by_cases hvalid : ∃ id, call.id? = some id ∧ ¬ validId id = true
  · obtain ⟨id, hcall, hid⟩ := hvalid
    obtain ⟨htree, hstep⟩ := perform_invalid s (m := m) hcall hid t
    exact ⟨m, hstep, htree.symm ▸ h⟩
  by_cases hlong : ∃ id, call.id? = some id ∧ 246 < id.length
  · obtain ⟨id, hcall, hlong⟩ := hlong
    have hid : validId id = true := not_not.mp fun hid => hvalid ⟨id, hcall, hid⟩
    exact ⟨m, .long hcall hid hlong _, h.long hcall hid hlong⟩
  have hshort : ∀ id, call.id? = some id → Short id := fun id hcall =>
    ⟨not_not.mp fun hid => hvalid ⟨id, hcall, hid⟩, not_lt.mp fun hid => hlong ⟨id, hcall, hid⟩⟩
  cases call with
  | store id data =>
    obtain ⟨t', hrun, hholds⟩ := h.store (hshort id rfl) data
    rw [Call.perform, outcome_bind_of_ok hrun]
    exact ⟨_, .store (hshort id rfl) data, hholds⟩
  | load id size =>
    rw [Call.perform, outcome_fileLook, h.load? (hshort id rfl)]
    exact ⟨m, .load (hshort id rfl) size, h⟩
  | free id =>
    obtain ⟨t', hrun, hholds⟩ := h.free (hshort id rfl)
    rw [Call.perform, outcome_bind_of_ok hrun]
    exact ⟨_, .free (hshort id rfl), hholds⟩
  | contains id =>
    rw [Call.perform, outcome_fileLook, h.contains (hshort id rfl)]
    exact ⟨m, .contains (hshort id rfl), h⟩
  | entrySize id =>
    rw [Call.perform, outcome_fileLook, h.entrySize? (hshort id rfl)]
    exact ⟨m, .entrySize (hshort id rfl), h⟩
  | entries =>
    obtain ⟨ids, hids, hsorted, hkeys⟩ := h.entries
    rw [Call.perform, outcome_fileLook, hids]
    exact ⟨m, .entries hsorted hkeys, h⟩

/-- **What calls do to the entries**, they do to the map. -/
theorem Holds.run (h : s.Holds place t m) (calls : List Call) :
    ∃ m', MapRun m calls (s.answers calls t).1 m' ∧ s.Holds place (s.answers calls t).2 m' := by
  induction calls generalizing t m with
  | nil => exact ⟨m, .nil m, h⟩
  | cons call rest ih =>
    obtain ⟨m₁, hstep, h₁⟩ := h.step call
    obtain ⟨m₂, hrun, h₂⟩ := ih h₁
    exact ⟨m₂, .cons hstep hrun, h₂⟩

/-! ## A stash that was made or wiped -/

/-- The way to where a directory is, or is to be, does not lead through it. -/
def Beside (t : FileTree) (p : Path) (name : String) : Prop :=
  ".." ∉ p.parts ∨ ∃ place, (t.eraseBelow (place ++ [name])).Leads p.parts place

/-- More directories do not get in the way. -/
theorem Beside.grown {p : Path} {name : String} (h : Beside t p name) (hgrown : Grown t t') :
    Beside t' p name := by
  refine h.imp_right ?_
  rintro ⟨place, hleads⟩
  refine ⟨place, hleads.mono fun q hq => ?_⟩
  rw [get?_eraseBelow _ (by simp)] at hq ⊢
  split_ifs at hq ⊢
  exact hgrown.directory hq

theorem up_not_mem_join {p : Path} {name : String} (hname : PlainName name) (hup : ".." ∉ p.parts) :
    ".." ∉ (p.join name).parts := by
  rw [Path.parts_join p hname.noSlash, List.mem_append, List.mem_singleton]
  exact not_or.mpr ⟨fun hmem => hup (Path.mem_of_mem_below hmem), hname.ne_up.symm⟩

/-- The way to a directory is there if the directory is. -/
theorem leads_of_beside {p : Path} {name : String} (hname : PlainName name) (hwell : t.WellFormed)
    (hbeside : Beside t p name) (h : t'.Leads (p.join name).parts (place ++ [name]))
    (hdir : t.get? (place ++ [name]) = some .directory) :
    t.Leads (p.join name).parts (place ++ [name]) := by
  have hparts := Path.parts_join p hname.noSlash
  rcases hbeside with hup | ⟨place', hgone⟩
  · exact ⟨h.clean, hwell.follow (up_not_mem_join hname hup) h.follow hdir, hdir⟩
  · have hp : t.Leads p.below place' := leads_below_iff.mpr <|
      hgone.mono fun q => (Session.pruned_eraseBelow (by simp)).directory
    rw [hparts] at h ⊢
    obtain ⟨found, heq, hleads, hsize⟩ := h.parent hname
    obtain rfl := follow_unique hp.follow hleads.follow
    obtain rfl : place = place' := List.append_cancel_right heq
    exact hp.child hname hsize hdir

/-- **Nothing is made in a directory** on the way to it. -/
theorem makeDirectories_beside {p : Path} {name : String} (hname : PlainName name)
    (hbeside : Beside t p name) {t₁ : FileTree}
    (h : outcome (FileM.makeDirectories (p.join name)) t₁ = (.ok (), t'))
    (hplace : t'.Leads (p.join name).parts (place ++ [name])) (entry : String)
    (hnone : t₁.get? (place ++ [name] ++ [entry]) = none) :
    t'.get? (place ++ [name] ++ [entry]) = none := by
  have hparts := Path.parts_join p hname.noSlash
  rcases hbeside with hup | ⟨place', hgone⟩
  · have hup' := up_not_mem_join hname hup
    rw [← hnone, show t' = (outcome (FileM.makeDirectories (p.join name)) t₁).2 by rw [h]]
    refine FileM.makeDirectories_get? hup' fun hprefix => ?_
    have hshort := hprefix.length_le
    rw [← List.nil_append (steps _), ← follow_of_noUp hup' hplace.follow] at hshort
    simp at hshort
  · -- what is made on the way is there also where the directory has nothing in it
    let u := (t.eraseBelow (place' ++ [name])).put (place' ++ [name]) .directory
    have hu : ∀ q, u.get? q = if q = place' ++ [name] then some .directory else
        (t.eraseBelow (place' ++ [name])).get? q := get?_put _ (by simp) _
    have hp : u.Leads p.below place' := leads_below_iff.mpr <| hgone.mono fun q hq => by
      rw [hu]
      split_ifs
      · rfl
      · exact hq
    obtain ⟨found, heq, hleads, hsize⟩ := (hparts ▸ hplace).parent hname
    obtain rfl := follow_unique hp.follow hleads.follow
    obtain rfl : place = place' := List.append_cancel_right heq
    have hmade := FileM.makeDirectories_along h
      (hparts ▸ hp.child hname hsize ((hu _).trans (if_pos rfl))) (place ++ [name] ++ [entry])
    rw [hnone, hu, if_neg (by simp), get?_eraseBelow t (by simp),
      if_pos (List.isPrefixOf_iff_prefix.mpr ⟨[entry], rfl⟩)] at hmade
    exact hmade.resolve_right (by simp)

/-- The directory of a stash is there, with nothing in it. -/
def Fresh (s : Stash) (t : FileTree) : Prop :=
  t.Distinct ∧ ∃ place, s.Sited t place ∧ ∀ name, t.get? (place ++ [name]) = none

/-- **A directory that was made or wiped** is there with nothing in it, unless the way to it leads
through itself: what is missing on a way is made, and it would be made there. -/
theorem empty_of_open {p : Path} {name : String} {wipe : Bool} (hname : PlainName name)
    (hwell : t.WellFormed) (hbeside : Beside t p name)
    (h : outcome (open_ (p.join name) wipe) t = (.ok s, t')) (hcreated : s.created = true) :
    s.base = p.join name ∧ ∃ place, t'.Leads (p.join name).parts (place ++ [name]) ∧
      ∀ entry, t'.get? (place ++ [name] ++ [entry]) = none := by
  obtain ⟨t₁, hwipe, hmake, rfl⟩ := Session.open_eq_ok.mp h
  obtain ⟨-, -, end_, hstash⟩ := FileM.makeDirectories_eq_ok hmake
  obtain ⟨place, rfl, -, -⟩ := (Path.parts_join p hname.noSlash ▸ hstash).parent hname
  refine ⟨rfl, place, hstash, fun entry => makeDirectories_beside hname hbeside hmake hstash entry ?_⟩
  split_ifs at hwipe with hexisted
  · -- all that was in it is removed
    obtain ⟨found, hlocate, hdir, rfl⟩ := Session.removeDirectory_eq_ok.mp hwipe
    obtain rfl := follow_unique (leads_of_locate hlocate hdir).follow hstash.follow
    rw [get?_eraseBelow t (by simp), if_pos (List.isPrefixOf_iff_prefix.mpr ⟨[entry], rfl⟩)]
  · -- it was not there, and so nothing was in it
    by_contra hthere
    have hdir := hwell.parent (hwipe ▸ hthere)
    have hleads := leads_of_beside hname hwell hbeside hstash hdir
    have hsited := Session.sited_of_leads hname (s := ⟨p.join name, true⟩) rfl hleads
    have hfound : t.isDirectory (p.join name) = true :=
      Session.isDirectory_iff.mpr ⟨_, hleads.locate_self hsited.named, hdir⟩
    rw [hfound, Bool.true_and] at hexisted
    rw [hfound, Bool.not_true, Bool.false_or] at hcreated
    exact hexisted hcreated

/-- **A stash that was made or wiped** is fresh, unless the way to it leads through its own
directory. -/
theorem fresh_of_open {p : Path} {name : String} {wipe : Bool} (hname : PlainName name)
    (hdistinct : t.Distinct) (hwell : t.WellFormed) (hbeside : Beside t p name)
    (h : outcome (open_ (p.join name) wipe) t = (.ok s, t')) (hcreated : s.created = true) :
    s.Fresh t' := by
  have hkept := distinct_open (p.join name) wipe t
  rw [Leaves, h] at hkept
  obtain ⟨hbase, place, hstash, hempty⟩ := empty_of_open hname hwell hbeside h hcreated
  exact ⟨hkept hdistinct, place ++ [name], Session.sited_of_leads hname hbase hstash, hempty⟩

/-- **A stash is a map from ids to byte strings**, for all calls that follow when its directory was
made or wiped. -/
theorem answers_of_fresh (s : Stash) (t : FileTree) (h : s.Fresh t) (calls : List Call) :
    (∃ m, MapRun (fun _ => none) calls (s.answers calls t).1 m) ∧
    ∀ (u : FileTree) (call : Call) (id : String), call.id? = some id → ¬ validId id = true →
      (outcome (call.perform s) u).2 = u := by
  obtain ⟨hdistinct, place, hsited, hempty⟩ := h
  have hholds : s.Holds place t fun _ => none := by
    refine ⟨hsited, hdistinct, fun name hdir => ?_, fun id data => ?_, fun _ hkey => absurd rfl hkey⟩
    · rw [hempty name] at hdir
      cases hdir
    · simp [hempty id]
  obtain ⟨m, hrun, -⟩ := hholds.run calls
  exact ⟨⟨m, hrun⟩, fun u call id hcall hid =>
    (perform_invalid s (m := fun _ => none) hcall hid u).1⟩

/-- A stash with an entry, in a work directory. -/
def usedTree : FileTree :=
  ⟨[(["w"], .directory), (["w", "s"], .directory), (["w", "s", "aa"], .file ⟨#[1]⟩)]⟩

/-- That stash, wiped: what was in it is not loaded, and what is stored is. -/
theorem answers_of_fresh_usedTree :
    ∃ s t, outcome (open_ ((Path.ofText "w").join "s") true) usedTree = (.ok s, t) ∧ s.Fresh t ∧
      ∃ m, MapRun (fun _ => none) [.load "aa" 1, .store "aa" ⟨#[2]⟩, .load "aa" 1, .entries]
        (s.answers [.load "aa" 1, .store "aa" ⟨#[2]⟩, .load "aa" 1, .entries] t).1 m := by
  have hopen : outcome (open_ ((Path.ofText "w").join "s") true) usedTree =
      (.ok ⟨(Path.ofText "w").join "s", true⟩, ⟨[(["w", "s"], .directory), (["w"], .directory)]⟩) := by
    cbv
  have hwell : usedTree.WellFormed := by
    intro q hne hthere
    obtain ⟨node, hnode⟩ := Option.ne_none_iff_exists'.mp hthere
    have hmem := mem_of_get? hne hnode
    simp only [usedTree, List.mem_cons, Prod.mk.injEq, List.not_mem_nil, or_false] at hmem
    rcases hmem with ⟨rfl, -⟩ | ⟨rfl, -⟩ | ⟨rfl, -⟩ <;> rfl
  have hfresh := fresh_of_open ⟨by decide, by decide, by decide, by decide, by decide⟩ (by decide)
    hwell (.inl (by decide)) hopen rfl
  exact ⟨_, _, hopen, hfresh, (answers_of_fresh _ _ hfresh _).1⟩

end Stash

end BlockUpdate
