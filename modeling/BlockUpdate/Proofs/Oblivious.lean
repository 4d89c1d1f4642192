import BlockUpdate.Proofs.Workspace
import Mathlib.Data.List.Basic

/-!
# What a computation takes no notice of

Part of a state may be hidden from a computation without any difference: it ends with the same
result, and it does to what is left just what it does to the whole. For files, hiding is leaving
out the nodes at some places.

- `Oblivious hide I x`: from states in which `I` holds, hiding and running can change places.
- **`Oblivious.bind`**: this is so of a sequence if it is so of its parts.
- `FileTree.without`: a tree without the nodes at hidden places.
- **`Stash.oblivious_store`**, **`oblivious_free`**: a stash takes no notice of what is not below its
  directory, and looking at it neither.
- **`FileM.oblivious_overwrite`**, `oblivious_removeIfPresent`: nor does the file at one place of
  other places.
-/

namespace BlockUpdate

/-- Hiding a part of the state before a computation or after it makes no difference, and none to the
result either. What holds of the state still does. -/
def Oblivious {σ ε α : Type} (hide : σ → σ) (I : σ → Prop) (x : ExceptT ε (StateM σ) α) : Prop :=
  ∀ s, I s → outcome x (hide s) = ((outcome x s).1, hide (outcome x s).2) ∧ I (outcome x s).2

namespace Oblivious

variable {σ ε α β : Type} {hide : σ → σ} {I : σ → Prop}

theorem pure (a : α) : Oblivious hide I (Pure.pure a : ExceptT ε (StateM σ) α) :=
  fun _ h => ⟨rfl, h⟩

theorem throw (e : ε) : Oblivious hide I (MonadExcept.throw e : ExceptT ε (StateM σ) α) :=
  fun _ h => ⟨rfl, h⟩

/-- **One after the other.** -/
theorem bind {x : ExceptT ε (StateM σ) α} {f : α → ExceptT ε (StateM σ) β}
    (hx : Oblivious hide I x) (hf : ∀ a, Oblivious hide I (f a)) : Oblivious hide I (x >>= f) := by
  intro s hs
  obtain ⟨hsame, hafter⟩ := hx s hs
  rw [outcome_bind, outcome_bind, hsame]
  rcases hrun : outcome x s with ⟨e | a, s'⟩ <;> rw [hrun] at hafter
  · exact ⟨rfl, hafter⟩
  · exact hf a s' hafter

theorem ite {p : Prop} [Decidable p] {x y : ExceptT ε (StateM σ) α} (hx : p → Oblivious hide I x)
    (hy : ¬ p → Oblivious hide I y) : Oblivious hide I (if p then x else y) := by
  split
  · exact hx ‹p›
  · exact hy ‹¬ p›

/-- The state is read, and what is done then depends on nothing that is hidden. -/
theorem get_bind {f : σ → ExceptT ε (StateM σ) β} (hsame : ∀ s, I s → f (hide s) = f s)
    (hf : ∀ s, I s → Oblivious hide I (f s)) : Oblivious hide I (get >>= f) := by
  intro s hs
  rw [outcome_get_bind, outcome_get_bind, hsame s hs]
  exact hf s hs s hs

theorem modify {f : σ → σ} (hsame : ∀ s, f (hide s) = hide (f s)) (hf : ∀ s, I s → I (f s)) :
    Oblivious hide I (modify f : ExceptT ε (StateM σ) PUnit) := by
  intro s hs
  rw [outcome_modify, outcome_modify, hsame]
  exact ⟨rfl, hf s hs⟩

end Oblivious

/-! ## Hidden files -/

namespace FileTree

variable {hidden : Place → Bool} {t : FileTree} {p q : Place}

/-- A tree without the nodes at hidden places. -/
def without (t : FileTree) (hidden : Place → Bool) : FileTree :=
  ⟨t.nodes.filter fun node => !hidden node.1⟩

theorem get?_without (t : FileTree) (h : hidden q = false) : (t.without hidden).get? q = t.get? q := by
  rw [get?, get?, without, lookup_filter t.nodes (fun p => !hidden p) q, h]
  rfl

theorem get?_without_of_hidden (t : FileTree) (hne : q ≠ []) (h : hidden q = true) :
    (t.without hidden).get? q = none := by
  rw [get?, if_neg hne, without, lookup_filter t.nodes (fun p => !hidden p) q, h]
  rfl

/-- What is found where some places are hidden is found where they are not. -/
theorem get?_of_without {node : Node} (h : (t.without hidden).get? q = some node) :
    t.get? q = some node := by
  by_cases hne : q = []
  · rw [hne] at h ⊢
    exact h
  · cases hq : hidden q with
    | false => rwa [← get?_without t hq]
    | true =>
      rw [get?_without_of_hidden t hne hq] at h
      cases h

theorem leads_of_without {parts : List String} {place : Place}
    (h : (t.without hidden).Leads parts place) : t.Leads parts place :=
  h.mono fun _ => get?_of_without

theorem without_put (t : FileTree) (h : hidden p = false) (node : Node) :
    (t.put p node).without hidden = (t.without hidden).put p node := by
  rw [without, put, List.filter_cons_of_pos (by rw [h]; rfl), List.filter_comm]
  rfl

theorem without_erase (t : FileTree) (hidden : Place → Bool) (p : Place) :
    (t.erase p).without hidden = (t.without hidden).erase p := by
  rw [without, erase, List.filter_comm]
  rfl

theorem without_eraseBelow (t : FileTree) (hidden : Place → Bool) (p : Place) :
    (t.eraseBelow p).without hidden = (t.without hidden).eraseBelow p := by
  rw [without, eraseBelow, List.filter_comm]
  rfl

theorem without_removed (t : FileTree) (h : hidden p = false) :
    (t.removed p).without hidden = (t.without hidden).removed p := by
  rw [removed, removed, get?_without t h]
  split
  · exact without_erase t hidden p
  · rfl

theorem without_written (t : FileTree) (h : hidden p = false) (data : Bytes) :
    (t.written p data).without hidden = (t.without hidden).written p data := by
  rw [written, without_put _ h, without_put _ h, written]

/-- The directories of a tree are there in another one, and not hidden. -/
def Shows (hidden : Place → Bool) (base t : FileTree) : Prop :=
  ∀ q, base.get? q = some .directory → (t.without hidden).get? q = some .directory

variable {base t' : FileTree}

theorem Shows.mono (h : Shows hidden base t)
    (hmore : ∀ q, (t.without hidden).get? q = some .directory →
      (t'.without hidden).get? q = some .directory) : Shows hidden base t' :=
  fun q hq => hmore q (h q hq)

end FileTree

open FileTree

/-! ## Single files -/

namespace FileM

variable {hidden : Place → Bool} {t : FileTree} {parts : List String} {place : Place}
  {name : String} {p : Path}

/-- How creating a file ends. -/
theorem after_create_eq (h : t.Leads parts place) (hname : PlainName name)
    (hp : p.parts = parts ++ [name]) :
    t.after (.create p) =
      if maxName < name.utf8ByteSize then .error (.errno Errno.nameTooLong)
      else if t.get? (place ++ [name]) = some .directory then .error (.errno Errno.isDirectory)
      else .ok (t.put (place ++ [name]) (.file ByteArray.empty)) := by
  rw [FileTree.after, h.locate hname hp]
  by_cases hsize : maxName < name.utf8ByteSize
  · rw [if_pos hsize, if_pos hsize]
    rfl
  · rw [if_neg hsize, if_neg hsize]
    simp only [bind, Except.bind]
    rcases t.get? (place ++ [name]) with _ | _ | _ <;> rfl

/-- How replacing a file's contents ends. -/
theorem overwrite_eq (h : t.Leads parts place) (hname : PlainName name)
    (hp : p.parts = parts ++ [name]) (data : Bytes) :
    outcome (overwrite p data) t =
      if maxName < name.utf8ByteSize then (.error (.errno Errno.nameTooLong), t)
      else if t.get? (place ++ [name]) = some .directory then (.error (.errno Errno.isDirectory), t)
      else (.ok (), t.written (place ++ [name]) data) := by
  by_cases hsize : maxName < name.utf8ByteSize
  · rw [if_pos hsize, overwrite, overwriteSteps, outcome_perform_cons, after_create_eq h hname hp,
      if_pos hsize]
  rw [if_neg hsize]
  by_cases hdir : t.get? (place ++ [name]) = some .directory
  · rw [if_pos hdir, overwrite, overwriteSteps, outcome_perform_cons, after_create_eq h hname hp,
      if_neg hsize, if_pos hdir]
  · rw [if_neg hdir]
    exact (overwrite_eq_ok h hname hp data).mpr ⟨by omega, hdir, rfl⟩

/-- How removing a file ends, which need not be there. -/
theorem removeIfPresent_eq (h : t.Leads parts place) (hname : PlainName name)
    (hp : p.parts = parts ++ [name]) :
    outcome (removeIfPresent p) t =
      if maxName < name.utf8ByteSize then (.error (.errno Errno.nameTooLong), t)
      else if t.get? (place ++ [name]) = some .directory then (.error (.errno Errno.isDirectory), t)
      else (.ok (), t.removed (place ++ [name])) := by
  by_cases hfits : name.utf8ByteSize ≤ maxName ∧ t.get? (place ++ [name]) ≠ some .directory
  · rw [if_neg (by omega), if_neg hfits.2]
    exact (removeIfPresent_eq_ok h hname hp).mpr ⟨hfits.1, hfits.2, rfl⟩
  · rw [removeIfPresent]
    unfold removeIfPresent.tolerateAbsence
    rw [outcome_mk, show (remove p).run t = outcome (remove p) t from rfl, remove, outcome_change,
      h.locate hname hp]
    by_cases hsize : maxName < name.utf8ByteSize
    · rw [if_pos hsize, if_pos hsize]
      rfl
    · have hdir : t.get? (place ++ [name]) = some .directory :=
        not_not.mp fun hdir => hfits ⟨by omega, hdir⟩
      rw [if_neg hsize, if_neg hsize, if_pos hdir]
      simp only [bind, Except.bind, hdir]
      rfl

section

variable {base : FileTree} (hbase : base.Leads parts place) (hname : PlainName name)
  (hp : p.parts = parts ++ [name]) (hshown : hidden (place ++ [name]) = false)

include hbase hname hp hshown

theorem oblivious_overwrite (data : Bytes) :
    Oblivious (·.without hidden) (Shows hidden base) (overwrite p data) := by
  intro t ht
  have hleads : (t.without hidden).Leads parts place := hbase.mono ht
  have hget := get?_without t hshown
  rw [overwrite_eq hleads hname hp, overwrite_eq (leads_of_without hleads) hname hp, hget]
  split_ifs with hsize hdir
  · exact ⟨rfl, ht⟩
  · exact ⟨rfl, ht⟩
  · refine ⟨Prod.ext rfl (without_written t hshown data).symm, ht.mono fun q => ?_⟩
    rw [without_written t hshown]
    exact (directory_iff_of_get? (get?_written _ (by simp) data) (hget ▸ hdir) (by simp) q).mpr

theorem oblivious_removeIfPresent :
    Oblivious (·.without hidden) (Shows hidden base) (removeIfPresent p) := by
  intro t ht
  have hleads : (t.without hidden).Leads parts place := hbase.mono ht
  have hget := get?_without t hshown
  rw [removeIfPresent_eq hleads hname hp, removeIfPresent_eq (leads_of_without hleads) hname hp,
    hget]
  split_ifs with hsize hdir
  · exact ⟨rfl, ht⟩
  · exact ⟨rfl, ht⟩
  · refine ⟨Prod.ext rfl (without_removed t hshown).symm, ht.mono fun q => ?_⟩
    rw [without_removed t hshown]
    exact (directory_iff_of_get? (get?_removed _ (hget ▸ hdir)) (hget ▸ hdir) (by simp) q).mpr

end

/-- Renamed errors are still of something that is not hidden. -/
theorem oblivious_mapError {ε ε' α : Type} {I : FileTree → Prop} {f : ε → ε'} {x : FileM ε α}
    (h : Oblivious (·.without hidden) I x) : Oblivious (·.without hidden) I (mapError f x) := by
  intro t ht
  obtain ⟨hsame, hafter⟩ := h t ht
  rw [outcome_fileMapError, outcome_fileMapError, hsame]
  exact ⟨rfl, hafter⟩

end FileM

/-! ## Stashes -/

namespace Stash

variable {hidden : Place → Bool} {s : Stash} {t : FileTree} {place : Place} {id : String}

/-- How storing an entry ends. -/
theorem store_eq (h : s.Sited t place) (id : String) (data : Bytes) :
    outcome (s.store id data) t =
      if validId id = false then (.error (.invalidId id), t)
      else if maxName < (temporaryName id).utf8ByteSize then
        (.error (.os (.errno Errno.nameTooLong)), t)
      else if t.get? (place ++ [temporaryName id]) = some .directory then
        (.error (.os (.errno Errno.isDirectory)), t)
      else if t.get? (place ++ [id]) = some .directory then
        (.error (.os (.errno Errno.isDirectory)), t.written (place ++ [temporaryName id]) data)
      else (.ok (), stored t place id data) := by
  cases hid : validId id with
  | false =>
    rw [if_pos rfl, store, outcome_bind, outcome_fileLook, s.entryPath_of_not_validId (by simp [hid])]
  | true =>
  rw [if_neg Bool.false_ne_true.symm, store, outcome_bind_of_ok (a := s.base.join id) (t := t)
    (by rw [outcome_fileLook, s.entryPath_of_validId hid]), outcome_fileMapError, storeSteps]
  have hplain := plainName_temporaryName hid
  have htemporary : (s.temporaryPath id).parts = s.base.parts ++ [temporaryName id] :=
    h.parts_join hplain
  split_ifs with hsize hdir hentry
  · rw [FileM.outcome_perform_cons, FileM.after_create_eq h.leads hplain htemporary, if_pos hsize]
    rfl
  · rw [FileM.outcome_perform_cons, FileM.after_create_eq h.leads hplain htemporary, if_neg hsize,
      if_pos hdir]
    rfl
  · rw [FileM.outcome_perform_fill h.leads hplain htemporary (by omega) hdir,
      FileM.outcome_perform_cons, after_rename h hid (by omega) hdir, if_pos hentry]
    rfl
  · have hstored := (store_eq_ok h data).mpr ⟨⟨hid, by omega, hdir, hentry⟩, rfl⟩
    rw [store, outcome_bind_of_ok (a := s.base.join id) (t := t)
      (by rw [outcome_fileLook, s.entryPath_of_validId hid]), outcome_fileMapError, storeSteps]
      at hstored
    exact hstored

/-- How removing an entry ends. -/
theorem free_eq (h : s.Sited t place) (id : String) :
    outcome (s.free id) t =
      if validId id = false then (.error (.invalidId id), t)
      else if maxName < id.utf8ByteSize then (.error (.os (.errno Errno.nameTooLong)), t)
      else if t.get? (place ++ [id]) = some .directory then
        (.error (.os (.errno Errno.isDirectory)), t)
      else (.ok (), t.removed (place ++ [id])) := by
  cases hid : validId id with
  | true =>
    have hplain := plainName_of_validId hid
    rw [if_neg Bool.false_ne_true.symm, free, outcome_bind_of_ok (a := s.base.join id) (t := t)
      (by rw [outcome_fileLook, s.entryPath_of_validId hid]), outcome_fileMapError,
      FileM.removeIfPresent_eq h.leads hplain (h.parts_join hplain)]
    split_ifs <;> rfl
  | false =>
    rw [if_pos rfl, free, outcome_bind, outcome_fileLook, s.entryPath_of_not_validId (by simp [hid])]

section

variable {base : FileTree} (hbase : s.Sited base place)
  (hshown : ∀ q, place <+: q → hidden q = false)

include hbase hshown

/-! ### Looking -/

theorem contains_without (h : Shows hidden base t) (id : String) :
    s.contains (t.without hidden) id = s.contains t id := by
  have hsited : s.Sited (t.without hidden) place := hbase.mono h
  rw [Bool.eq_iff_iff, contains_iff hsited, contains_iff (hsited.mono fun _ => get?_of_without),
    get?_without t (hshown _ (List.prefix_append ..))]

theorem entrySize?_without (h : Shows hidden base t) (id : String) :
    s.entrySize? (t.without hidden) id = s.entrySize? t id := by
  have hsited : s.Sited (t.without hidden) place := hbase.mono h
  exact entrySize?_congr (hsited.mono fun _ => get?_of_without) hsited
    (get?_without t (hshown _ (List.prefix_append ..)))

theorem load?_without (h : Shows hidden base t) (id : String) (size : Nat) :
    s.load? (t.without hidden) id size = s.load? t id size := by
  have hsited : s.Sited (t.without hidden) place := hbase.mono h
  exact load?_congr (hsited.mono fun _ => get?_of_without) hsited
    (get?_without t (hshown _ (List.prefix_append ..))) size

/-! ### Changing -/

omit hbase in
theorem without_stored (t : FileTree) (id : String) (data : Bytes) :
    (stored t place id data).without hidden = stored (t.without hidden) place id data := by
  rw [stored, without_put _ (hshown _ (List.prefix_append ..)), without_erase,
    without_written _ (hshown _ (List.prefix_append ..)), stored]

theorem oblivious_store (id : String) (data : Bytes) :
    Oblivious (·.without hidden) (Shows hidden base) (s.store id data) := by
  intro t ht
  have hsited : s.Sited (t.without hidden) place := hbase.mono ht
  have hget := fun name => get?_without t (hshown (place ++ [name]) (List.prefix_append ..))
  rw [store_eq hsited, store_eq (hsited.mono fun _ => get?_of_without), hget, hget]
  split_ifs with hid hsize hdir hentry
  · exact ⟨rfl, ht⟩
  · exact ⟨rfl, ht⟩
  · exact ⟨rfl, ht⟩
  · have hwritten := without_written t (hshown _ (List.prefix_append place [temporaryName id])) data
    refine ⟨Prod.ext rfl hwritten.symm, ht.mono fun q => ?_⟩
    rw [hwritten]
    exact (directory_iff_of_get? (get?_written _ (by simp) data) (hget _ ▸ hdir) (by simp) q).mpr
  · have hstored := without_stored hshown t id data
    refine ⟨Prod.ext rfl hstored.symm, ht.mono fun q => ?_⟩
    rw [hstored]
    exact (directory_stored
      ⟨by simpa using hid, Nat.not_lt.mp hsize, hget _ ▸ hdir, hget _ ▸ hentry⟩ data q).mpr

theorem oblivious_free (id : String) :
    Oblivious (·.without hidden) (Shows hidden base) (s.free id) := by
  intro t ht
  have hsited : s.Sited (t.without hidden) place := hbase.mono ht
  have hid := hshown (place ++ [id]) (List.prefix_append ..)
  have hget := get?_without t hid
  rw [free_eq hsited, free_eq (hsited.mono fun _ => get?_of_without), hget]
  split_ifs with hvalid hsize hdir
  · exact ⟨rfl, ht⟩
  · exact ⟨rfl, ht⟩
  · exact ⟨rfl, ht⟩
  · refine ⟨Prod.ext rfl (without_removed t hid).symm, ht.mono fun q => ?_⟩
    rw [without_removed t hid]
    exact (directory_iff_of_get? (get?_removed _ (hget ▸ hdir)) (hget ▸ hdir) (by simp) q).mpr

end

end Stash

end BlockUpdate
