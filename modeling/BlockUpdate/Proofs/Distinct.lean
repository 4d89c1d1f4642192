import BlockUpdate.Proofs.Opening
import Mathlib.Data.List.Nodup

/-!
# One node at every place

A tree lists its nodes, and looking one up gives the first of its place. Nothing that is done to
files lists a second one, so what is listed is what can be looked up, and the entries of a stash are
known by the places below its directory.

- `FileTree.Distinct`: no two nodes are at one place.
- `FileTree.get?_of_mem`: then what is listed can be looked up.
- **`FileM.distinct_perform`**, **`distinct_makeDirectories`**, `distinct_remove`,
  `distinct_removeDirectory`: the operations on files keep it so, however they end.
- **`Session.distinct_prepare`**: so does all that comes before the commands of a session.
- **`Stash.held_perm`**, **`Stash.held_perm_cons`**: the entries of a stash, by what can be looked up.
-/

namespace BlockUpdate

namespace FileTree

/-! ## Trees -/

/-- No two nodes are at one place. -/
def Distinct (t : FileTree) : Prop := (t.nodes.map Prod.fst).Nodup

instance (t : FileTree) : Decidable t.Distinct := inferInstanceAs (Decidable (List.Nodup _))

variable {t t' : FileTree} {place : Place} {node : Node}

/-- Without some of the nodes. -/
theorem Distinct.filter (h : t.Distinct) (keep : Place × Node → Bool) :
    Distinct ⟨t.nodes.filter keep⟩ :=
  List.Nodup.sublist (List.filter_sublist.map Prod.fst) h

theorem Distinct.erase (h : t.Distinct) (place : Place) : (t.erase place).Distinct := h.filter _

theorem Distinct.eraseBelow (h : t.Distinct) (place : Place) : (t.eraseBelow place).Distinct :=
  h.filter _

/-- A node takes the place of the one that was there. -/
theorem Distinct.put (h : t.Distinct) (place : Place) (node : Node) :
    (t.put place node).Distinct := by
  refine List.nodup_cons.mpr ⟨?_, h.erase place⟩
  intro hmem
  obtain ⟨found, hfound, hplace⟩ := List.mem_map.mp hmem
  -- the node that was there is not among those that are kept
  have hne := (List.mem_filter.mp hfound).2
  simp [hplace] at hne

theorem Distinct.removed (h : t.Distinct) (place : Place) : (t.removed place).Distinct := by
  rw [FileTree.removed]
  split
  · exact h.erase place
  · exact h

theorem Distinct.written (h : t.Distinct) (place : Place) (data : Bytes) :
    (t.written place data).Distinct := (h.put place _).put place _

/-- **What is listed can be looked up.** -/
theorem get?_of_mem (h : t.Distinct) (hplace : place ≠ []) (hmem : (place, node) ∈ t.nodes) :
    t.get? place = some node := by
  obtain ⟨before, after, hnodes⟩ := List.append_of_mem hmem
  rw [get?, if_neg hplace, hnodes]
  refine List.lookup_eq_some_iff.mpr ⟨before, after, rfl, ?_⟩
  rw [Distinct, hnodes, List.map_append, List.map_cons] at h
  -- a node before it is at another place, so it is the first one of its own
  intro other hother
  have hne := (List.nodup_append.mp h).2.2 other.1 (List.mem_map_of_mem hother) place (by simp)
  simpa using Ne.symm hne

/-- What is done to files keeps nodes apart. -/
def KeepsDistinct (t t' : FileTree) : Prop := t.Distinct → t'.Distinct

instance : IsPreorder FileTree KeepsDistinct where
  refl _ := id
  trans _ _ _ h h' := h' ∘ h

end FileTree

open FileTree

namespace FileM

/-! ## Operations -/

variable {t : FileTree} {ε α : Type}

theorem distinct_change {f : FileTree → Except ε FileTree}
    (h : ∀ t', f t = .ok t' → KeepsDistinct t t') : Leaves KeepsDistinct (change f) t := by
  unfold Leaves
  rw [outcome_change]
  rcases hf : f t with _ | t'
  · exact refl_of KeepsDistinct t
  · exact h t' hf

theorem distinct_mapError {ε' : Type} {f : ε → ε'} {x : FileM ε α} (h : Leaves KeepsDistinct x t) :
    Leaves KeepsDistinct (mapError f x) t := by
  unfold Leaves
  rw [outcome_fileMapError]
  exact h

theorem distinct_after {step : FileEffect} {t' : FileTree} (h : t.after step = .ok t') :
    KeepsDistinct t t' := by
  intro ht
  cases step with
  | create p =>
    obtain ⟨place, -, h⟩ := except_bind_eq_ok.mp h
    split at h
    · cases h
    · exact Except.ok.inj h ▸ ht.put place _
  | append p data =>
    obtain ⟨place, -, h⟩ := except_bind_eq_ok.mp h
    split at h
    · exact Except.ok.inj h ▸ ht.put place _
    · cases h
    · cases h
  | sync p =>
    obtain ⟨_, -, h⟩ := except_bind_eq_ok.mp h
    exact Except.ok.inj h ▸ ht
  | rename source target =>
    obtain ⟨old, -, h⟩ := except_bind_eq_ok.mp h
    obtain ⟨new, -, h⟩ := except_bind_eq_ok.mp h
    split at h
    · cases h
    · cases h
    · exact Except.ok.inj h ▸ (ht.erase old).put new _

theorem distinct_perform (steps : List FileEffect) (t : FileTree) :
    Leaves KeepsDistinct (perform steps) t := by
  induction steps generalizing t with
  | nil => exact refl_of KeepsDistinct t
  | cons step rest ih =>
    exact Leaves.bind (distinct_change fun _ => distinct_after) fun _ t₁ _ _ => ih t₁

theorem distinct_remove (p : Path) (t : FileTree) : Leaves KeepsDistinct (remove p) t := by
  refine distinct_change fun t' h ht => ?_
  obtain ⟨place, -, h⟩ := except_bind_eq_ok.mp h
  split at h
  · cases h
  · cases h
  · exact Except.ok.inj h ▸ ht.erase place

theorem distinct_removeDirectory (p : Path) (t : FileTree) :
    Leaves KeepsDistinct (removeDirectory p) t := by
  refine distinct_change fun t' h ht => ?_
  obtain ⟨place, -, h⟩ := except_bind_eq_ok.mp h
  split at h
  · cases h
  · cases h
  · exact Except.ok.inj h ▸ ht.eraseBelow place

theorem distinct_tolerateAbsence {x : FileM OsError Unit} (h : Leaves KeepsDistinct x t) :
    Leaves KeepsDistinct (removeIfPresent.tolerateAbsence x) t := by
  unfold Leaves at *
  rwa [outcome_tolerateAbsence_snd]

theorem distinct_makeDirectoriesFrom (parts : List String) (place : Place) (t : FileTree) :
    Leaves KeepsDistinct (makeDirectoriesFrom parts place) t := by
  induction parts generalizing place t with
  | nil => exact refl_of KeepsDistinct t
  | cons part rest ih =>
    rw [makeDirectoriesFrom]
    refine Leaves.bind (refl_of KeepsDistinct t) fun next t₁ _ _ => Leaves.get_bind ?_
    -- nothing is there, a file, or a directory
    rcases t₁.get? next with _ | _ | _
    · exact Leaves.bind (Leaves.modify fun ht => ht.put next _) fun _ t₂ _ _ => ih next t₂
    · exact Leaves.ite (fun _ => Leaves.throw _) fun _ => Leaves.throw _
    · exact ih next t₁

theorem distinct_makeDirectories (p : Path) (t : FileTree) :
    Leaves KeepsDistinct (makeDirectories p) t := by
  rw [makeDirectories]
  exact Leaves.ite (fun _ => Leaves.throw _) fun _ => distinct_makeDirectoriesFrom _ _ t

end FileM

namespace Stash

variable {s : Stash} {t t' : FileTree} {place : Place} {id : String} {data : Bytes}

theorem distinct_open (base : Path) (wipe : Bool) (t : FileTree) :
    Leaves KeepsDistinct (open_ base wipe) t := by
  refine FileM.distinct_mapError (Leaves.get_bind (Leaves.ite (fun _ => ?_) fun _ => ?_))
  · refine Leaves.bind (FileM.distinct_removeDirectory base t) fun _ t₁ _ _ => ?_
    exact Leaves.bind (FileM.distinct_makeDirectories base t₁) fun _ _ _ _ => Leaves.pure _
  · exact Leaves.bind (FileM.distinct_makeDirectories base t) fun _ _ _ _ => Leaves.pure _

theorem distinct_store (s : Stash) (id : String) (data : Bytes) (t : FileTree) :
    Leaves KeepsDistinct (s.store id data) t :=
  Leaves.bind (refl_of KeepsDistinct t) fun _ t₁ _ _ =>
    FileM.distinct_mapError (FileM.distinct_perform _ t₁)

theorem distinct_stored (h : t.Distinct) (place : Place) (id : String) (data : Bytes) :
    (stored t place id data).Distinct := ((h.written _ data).erase _).put _ _

/-! ## Entries -/

/-- **An entry is a file** that can be looked up. -/
theorem mem_held_iff (h : t.Distinct) :
    (id, data) ∈ held t place ↔
      t.get? (place ++ [id]) = some (.file data) ∧ validId id = true := by
  rw [mem_held]
  refine and_congr_left fun _ => ⟨get?_of_mem h (by simp), mem_of_get? (by simp)⟩

/-- An entry is listed once. -/
theorem nodup_held (h : t.Distinct) (place : Place) : (held t place).Nodup := by
  have hnodes : t.nodes.Nodup := List.Nodup.of_map Prod.fst h
  refine List.Nodup.filterMap (fun a b entry ha hb => ?_) hnodes
  rw [Option.mem_def, entryOf?_eq_some] at ha hb
  rw [Prod.ext_iff, ha.1, hb.1, ha.2.1, hb.2.1]
  exact ⟨rfl, rfl⟩

/-- **Where the same can be looked up**, the same entries are listed. -/
theorem held_perm (h : t.Distinct) (h' : t'.Distinct)
    (hsame : ∀ name, validId name = true →
      t'.get? (place ++ [name]) = t.get? (place ++ [name])) :
    (held t' place).Perm (held t place) := by
  -- lists without repetition differ in their order only, if they have the same members
  refine (List.perm_ext_iff_of_nodup (nodup_held h' place) (nodup_held h place)).mpr ?_
  rintro ⟨name, data⟩
  rw [mem_held_iff h', mem_held_iff h]
  exact and_congr_left fun hname => by rw [hsame name hname]

/-- **With one more file**, one more entry is listed. -/
theorem held_perm_cons (h : t.Distinct) (h' : t'.Distinct) (hid : validId id = true)
    (hnone : t.get? (place ++ [id]) = none) (hfile : t'.get? (place ++ [id]) = some (.file data))
    (hsame : ∀ name, validId name = true → name ≠ id →
      t'.get? (place ++ [name]) = t.get? (place ++ [name])) :
    (held t' place).Perm ((id, data) :: held t place) := by
  -- the file is not listed a second time
  have hnew : (id, data) ∉ held t place := by
    rw [mem_held_iff h, hnone]
    exact fun h => nomatch h.1
  refine (List.perm_ext_iff_of_nodup (nodup_held h' place)
    (List.nodup_cons.mpr ⟨hnew, nodup_held h place⟩)).mpr ?_
  rintro ⟨name, found⟩
  rw [List.mem_cons, mem_held_iff h', mem_held_iff h, Prod.mk.injEq]
  by_cases hname : name = id
  · rw [hname, hfile, hnone]
    simp [hid, eq_comm]
  · rw [eq_false hname, false_and, false_or]
    exact and_congr_left fun hvalid => by rw [hsame name hvalid hname]

end Stash

namespace RetryMarker

theorem distinct_save (marker : RetryMarker) (p : Path) (t : FileTree) :
    Leaves KeepsDistinct (marker.save p) t :=
  FileM.distinct_mapError (FileM.distinct_perform _ t)

theorem distinct_remove (p : Path) (t : FileTree) : Leaves KeepsDistinct (remove p) t :=
  FileM.distinct_mapError (FileM.distinct_tolerateAbsence (FileM.distinct_remove p t))

end RetryMarker

namespace Session

/-! ## Before the commands of a session -/

variable {o : SessionOptions} {t t' : FileTree}

theorem distinct_copyEntries (source target : Stash) (ids : List String) (t : FileTree) :
    Leaves KeepsDistinct (copyEntries source target ids) t := by
  induction ids generalizing t with
  | nil => exact Leaves.pure ()
  | cons id rest ih =>
    refine Leaves.get_bind ?_
    cases source.entrySize? t id with
    | none => exact ih t
    | some size =>
      refine Leaves.bind (refl_of KeepsDistinct t) fun found t₁ _ _ => ?_
      cases found with
      | none => exact ih t₁
      | some data =>
        exact Leaves.bind (Stash.distinct_store target id data t₁) fun _ t₂ _ _ => ih t₂

theorem distinct_openStash (o : SessionOptions) (t : FileTree) :
    Leaves KeepsDistinct (openStash o) t := by
  refine Leaves.ite (fun _ => Stash.distinct_open _ _ t) fun _ => ?_
  refine Leaves.bind (Stash.distinct_open _ _ t) fun scratch t₁ _ _ => Leaves.get_bind ?_
  refine Leaves.ite (fun _ => ?_) fun _ => Leaves.pure _
  refine Leaves.bind (Stash.distinct_open _ _ t₁) fun kept t₂ _ _ => ?_
  refine Leaves.bind (refl_of KeepsDistinct t₂) fun ids t₃ _ _ => ?_
  exact Leaves.bind (distinct_copyEntries kept scratch ids t₃) fun _ _ _ _ => Leaves.pure _

theorem distinct_findSkip (o : SessionOptions) (commands : List String) (t : FileTree) :
    Leaves KeepsDistinct (findSkip o commands) t := by
  rw [findSkip]
  refine Leaves.ite (fun _ => ?_) fun _ => ?_
  · exact Leaves.bind (refl_of KeepsDistinct t) fun _ t₁ _ _ => Leaves.pure _
  · refine Leaves.ite (fun _ => ?_) fun _ => Leaves.pure _
    exact Leaves.bind (RetryMarker.distinct_remove o.markerPath t) fun _ _ _ _ => Leaves.pure _

/-- **A session begins with one node at every place**, if it found no more. -/
theorem distinct_prepare {lines : List String} {inputs : ScriptInputs} {w w' : World}
    (hdistinct : w.files.Distinct) {p : Prepared}
    (h : outcome (prepare o lines inputs) w = (.ok p, w')) : w'.files.Distinct := by
  obtain ⟨_, used, t₁, _, t₂, _, t₃, _, -, hmake, hopen, hskip, -, -, rfl⟩ := prepare_eq_ok.mp h
  have h₁ := FileM.distinct_makeDirectories o.workDir w.files
  have h₂ := distinct_openStash o t₁
  have h₃ := distinct_findSkip o (lines.drop used) t₂
  unfold Leaves at h₁ h₂ h₃
  rw [hmake] at h₁
  rw [hopen] at h₂
  rw [hskip] at h₃
  exact h₃ (h₂ (h₁ hdistinct))

end Session

end BlockUpdate
