import BlockUpdate.Proofs.Entries
import BlockUpdate.Proofs.Workspace
import Mathlib.Data.List.Induction

/-!
# What opening a directory leaves alone

A directory is made with all that is missing on the way to it, and what was made stays when a later
step fails. Nothing off the way is made, and where a way has lost directories these are made again.

- `FileTree.steps`: the names on a way that does not go up.
- **`FileM.makeDirectories_get?`**: what is not on such a way stays.
- **`FileM.makeDirectoriesFrom_append_pruned`**: a way that has lost directories.
- `FileTree.Outside`: trees that differ in what is in one directory at most.
- **`Stash.outside_open`**, **`outside_freeAll`**: a stash is opened, wiped and removed within its
  own directory, however that ends.
-/

namespace BlockUpdate

namespace FileTree

variable {t t' t₁ : FileTree} {parts : List String} {place end_ : Place}

/-! ## Ways that do not go up -/

/-- The names on a way that does not go up. -/
def steps (parts : List String) : List String := parts.filter fun part => part ≠ "" ∧ part ≠ "."

theorem steps_cons_of_skip {part : String} (h : part = "" ∨ part = ".") (rest : List String) :
    steps (part :: rest) = steps rest := by
  rw [steps, steps, List.filter_cons_of_neg]
  rcases h with rfl | rfl <;> simp

theorem steps_cons_of_name {part : String} (h : ¬ (part = "" ∨ part = ".")) (rest : List String) :
    steps (part :: rest) = part :: steps rest := by
  rw [steps, steps, List.filter_cons_of_pos]
  simpa [not_or] using h

theorem steps_filter (parts : List String) : steps (parts.filter (· ≠ "")) = steps parts := by
  rw [steps, steps, List.filter_filter]
  refine List.filter_congr fun part _ => ?_
  by_cases hempty : part = "" <;> simp [hempty]

/-- **One step** from a directory: none, or to a name in it. -/
theorem follow_step (hdir : t.get? place = some .directory) {part : String} (hup : part ≠ "..")
    (rest : List String) :
    t.follow (part :: rest) place =
      if part = "" ∨ part = "." then t.follow rest place
      else if maxName < part.utf8ByteSize then .error (.errno Errno.nameTooLong)
      else t.follow rest (place ++ [part]) := by
  rw [follow, hdir]
  show (if _ then _ else if _ then _ else _) = _
  rw [if_neg hup]

/-- Where a way leads that does not go up. -/
theorem follow_of_noUp (hup : ".." ∉ parts) (h : t.follow parts place = .ok end_) :
    end_ = place ++ steps parts := by
  induction parts generalizing place with
  | nil =>
    rw [← Except.ok.inj h]
    exact (List.append_nil place).symm
  | cons part rest ih =>
    simp only [List.mem_cons, not_or] at hup
    rw [follow_step (get?_of_follow_cons h) (Ne.symm hup.1)] at h
    split_ifs at h with hskip
    · rw [steps_cons_of_skip hskip]
      exact ih hup.2 h
    · rw [steps_cons_of_name hskip, ih hup.2 h, List.append_assoc]
      rfl

/-- What leads to a directory of a well-formed tree are directories. -/
theorem WellFormed.directory_of_append (hwell : t.WellFormed) {more : List String}
    (h : t.get? (place ++ more) = some .directory) : t.get? place = some .directory := by
  induction more using List.reverseRecOn with
  | nil => rwa [List.append_nil] at h
  | append_singleton more name ih =>
    rw [← List.append_assoc] at h
    exact ih (hwell.parent (by rw [h]; exact Option.some_ne_none _))

/-- A way that does not go up leads to a directory of a well-formed tree, if it does in any tree. -/
theorem WellFormed.follow (hwell : t.WellFormed) (hup : ".." ∉ parts)
    (h : t'.follow parts place = .ok end_) (hend : t.get? end_ = some .directory) :
    t.follow parts place = .ok end_ := by
  induction parts generalizing place with
  | nil => exact h
  | cons part rest ih =>
    have hplace : t.get? place = some .directory := by
      rw [follow_of_noUp hup h] at hend
      exact hwell.directory_of_append hend
    simp only [List.mem_cons, not_or] at hup
    rw [follow_step (get?_of_follow_cons h) (Ne.symm hup.1)] at h
    rw [follow_step hplace (Ne.symm hup.1)]
    split_ifs at h ⊢ <;> exact ih hup.2 h

end FileTree

namespace FileM

open FileTree

variable {t t' t₁ : FileTree} {parts : List String} {place end_ : Place} {p : Path}

theorem makeDirectoriesFrom_get? (hup : ".." ∉ parts) {q : Place}
    (hq : q <+: place ++ steps parts → q.length ≤ place.length) :
    (outcome (makeDirectoriesFrom parts place) t).2.get? q = t.get? q := by
  induction parts generalizing place t with
  | nil => rfl
  | cons part rest ih =>
    rw [makeDirectoriesFrom, outcome_bind, outcome_fileLook]
    rcases hnext : t.follow [part] place with e | next
    · rfl
    simp only
    rw [outcome_get_bind]
    simp only [List.mem_cons, not_or] at hup
    have hdir := get?_of_follow_cons hnext
    rw [follow_step hdir (Ne.symm hup.1)] at hnext
    -- what is further on is still on the way
    have hrest : q <+: next ++ steps rest → q.length ≤ next.length := by
      split_ifs at hnext with hskip
      · obtain rfl : place = next := Except.ok.inj hnext
        rwa [steps_cons_of_skip hskip] at hq
      · obtain rfl : place ++ [part] = next := Except.ok.inj hnext
        rw [steps_cons_of_name hskip] at hq
        rw [List.append_assoc, List.singleton_append, List.length_append]
        exact fun h => Nat.le_add_right_of_le (hq h)
    rcases hfound : t.get? next with _ | data | _
    · -- the place that is made is on the way, and further on than where it began
      have hne : q ≠ next := by
        rintro rfl
        split_ifs at hnext with hskip
        · obtain rfl : place = q := Except.ok.inj hnext
          rw [hdir] at hfound
          cases hfound
        · obtain rfl : place ++ [part] = q := Except.ok.inj hnext
          rw [steps_cons_of_name hskip] at hq
          have := hq ⟨steps rest, by rw [List.append_assoc, List.singleton_append]⟩
          rw [List.length_append, List.length_singleton] at this
          omega
      rw [show outcome (modify (·.put next .directory) >>= fun _ => makeDirectoriesFrom rest next) t =
        outcome (makeDirectoriesFrom rest next) (t.put next .directory) from
          outcome_bind_of_ok (outcome_modify _ t) _, ih hup.2 hrest,
        get?_put t (ne_nil_of_get?_eq_none hfound), if_neg hne]
    · simp only
      split_ifs <;> rfl
    · exact ih hup.2 hrest

/-- **What is not on the way to a directory** stays when it is made, however that ends. -/
theorem makeDirectories_get? (hup : ".." ∉ p.parts) {q : Place} (hq : ¬ q <+: steps p.parts) :
    (outcome (makeDirectories p) t).2.get? q = t.get? q := by
  rw [makeDirectories]
  by_cases hclean : p.parts.any (·.contains '\x00') = true
  · rw [if_pos hclean]
    rfl
  · rw [if_neg hclean]
    have hway : q <+: [] ++ steps (p.parts.filter (· ≠ "")) → q.length ≤ ([] : Place).length := by
      rw [List.nil_append, steps_filter]
      exact fun h => absurd h hq
    exact makeDirectoriesFrom_get? (fun hmem => hup (List.mem_filter.mp hmem).1) hway

/-- **What is further down than a directory** stays when it is made, however that ends, unless the
way goes up through what is missing. -/
theorem makeDirectories_beyond (hwork : (∃ place, t.Leads p.parts place) ∨ ".." ∉ p.parts)
    (hplace : t'.Leads p.parts place) {q : Place} (hq : place.length < q.length) :
    (outcome (makeDirectories p) t).2.get? q = t.get? q := by
  rcases hwork with ⟨found, hfound⟩ | hup
  · rw [makeDirectories_of_leads hfound]
  · refine makeDirectories_get? hup fun hprefix => ?_
    have hsteps := follow_of_noUp hup hplace.follow
    rw [List.nil_append] at hsteps
    have hshort := hprefix.length_le
    rw [← hsteps] at hshort
    omega

/-- **What is made on a way** is there in every tree that has the way. -/
theorem makeDirectoriesFrom_along {u : FileTree}
    (h : outcome (makeDirectoriesFrom parts place) t = (.ok (), t'))
    (hu : u.follow parts place = .ok end_) (hend : u.get? end_ = some .directory) (q : Place) :
    t'.get? q = t.get? q ∨ u.get? q = some .directory := by
  induction parts generalizing place t with
  | nil =>
    obtain rfl : t = t' := congrArg Prod.snd h
    exact .inl rfl
  | cons part rest ih =>
    rw [makeDirectoriesFrom, outcome_bind_eq_ok] at h
    obtain ⟨next, t₁, hnext, h⟩ := h
    obtain ⟨hfollow, rfl⟩ : t.follow [part] place = .ok next ∧ t = t₁ := by simpa using hnext
    rw [← List.singleton_append, follow_append, except_bind_eq_ok] at hu
    obtain ⟨next', hnext', hrest⟩ := hu
    obtain rfl := follow_unique hfollow hnext'
    rw [outcome_get_bind] at h
    rcases hfound : t.get? next with _ | data | _
    · rw [hfound] at h
      change outcome (modify (·.put next .directory) >>= fun _ => makeDirectoriesFrom rest next) t =
        _ at h
      rw [outcome_bind_of_ok (outcome_modify _ t)] at h
      refine (ih h hrest).elim (fun hsame => ?_) .inr
      rw [hsame, get?_put t (ne_nil_of_get?_eq_none hfound)]
      split_ifs with hq
      · rw [hq]
        exact .inr (get?_of_follow hrest hend)
      · exact .inl rfl
    · rw [hfound] at h
      change outcome (if rest.isEmpty = true then throw _ else throw _) t = _ at h
      split_ifs at h <;> cases h
    · rw [hfound] at h
      exact ih h hrest

theorem makeDirectories_along {u : FileTree} (h : outcome (makeDirectories p) t = (.ok (), t'))
    (hu : u.Leads p.parts place) (q : Place) :
    t'.get? q = t.get? q ∨ u.get? q = some .directory := by
  rw [makeDirectories, hu.clean] at h
  exact makeDirectoriesFrom_along h
    ((follow_filter_iff (get?_nil u) hu.directory).mpr hu.follow) hu.directory q

/-- **A way that has lost directories** gets them again. -/
theorem makeDirectoriesFrom_append_pruned (h : t.follow parts place = .ok end_)
    (hend : t.get? end_ = some .directory) (hpruned : Pruned t t₁)
    (hplace : t₁.get? place = some .directory) (more : List String) :
    ∃ u, Pruned t u ∧ Pruned u t₁ ∧ u.get? end_ = some .directory ∧
      outcome (makeDirectoriesFrom (parts ++ more) place) t₁ =
        outcome (makeDirectoriesFrom more end_) u := by
  -- by induction on the way; the tree has lost less and less of what is on it
  induction parts generalizing place t₁ with
  | nil =>
    obtain rfl : place = end_ := Except.ok.inj h
    exact ⟨t₁, hpruned, fun _ => .inl rfl, hplace, rfl⟩
  | cons part rest ih =>
    rw [← List.singleton_append, follow_append, except_bind_eq_ok] at h
    obtain ⟨next, hnext, hrest⟩ := h
    have hdir := get?_of_follow hrest hend
    have hstep : t₁.follow [part] place = .ok next := by
      rw [← hnext]
      simp only [FileTree.follow, hplace, get?_of_follow_cons hnext]
    rw [List.cons_append, makeDirectoriesFrom, outcome_bind, outcome_fileLook, hstep]
    simp only
    rw [outcome_get_bind]
    rcases hpruned next with hsame | hnone
    · rw [hsame, hdir]
      exact ih hrest hpruned (hsame.trans hdir)
    · -- what was lost is made again
      rw [hnone]
      have hmade : outcome (modify (·.put next .directory) >>= fun _ =>
          makeDirectoriesFrom (rest ++ more) next) t₁ =
            outcome (makeDirectoriesFrom (rest ++ more) next) (t₁.put next .directory) :=
        outcome_bind_of_ok (outcome_modify _ t₁) _
      have hput := get?_put t₁ (ne_nil_of_get?_eq_none hnone) .directory
      have hagain : Pruned t (t₁.put next .directory) := by
        intro q
        rw [hput]
        split_ifs with hq
        · exact .inl (hq ▸ hdir.symm)
        · exact hpruned q
      have hless : Pruned (t₁.put next .directory) t₁ := by
        intro q
        rw [hput]
        split_ifs with hq
        · exact .inr (hq ▸ hnone)
        · exact .inl rfl
      obtain ⟨u, htu, hu, hdir', hrun⟩ := ih hrest hagain ((hput next).trans (if_pos rfl))
      exact ⟨u, htu, hu.trans hless, hdir', hmade.trans hrun⟩

end FileM

namespace FileTree

/-! ## One directory -/

/-- A tree that differs from another at a place, or below it, at most. -/
def Outside (top : Place) (t t' : FileTree) : Prop := ∀ q, ¬ top <+: q → t'.get? q = t.get? q

variable {top : Place} {t t' t₁ u : FileTree}

instance : IsPreorder FileTree (Outside top) where
  refl _ _ _ := rfl
  trans _ _ _ h h' q hq := (h' q hq).trans (h q hq)

theorem outside_eraseBelow (htop : top ≠ []) (t : FileTree) : Outside top t (t.eraseBelow top) := by
  intro q hq
  rw [get?_eraseBelow t htop, if_neg fun h => hq (List.isPrefixOf_iff_prefix.mp h)]

/-- What is put back into a tree was in it before. -/
theorem Outside.of_between (h : Outside top t t₁) (htu : Pruned t u) (hu : Pruned u t₁) :
    Outside top t u := by
  intro q hq
  rcases htu q with hsame | hnone
  · exact hsame
  · rw [hnone, ← h q hq]
    rcases hu q with hsame | hgone
    · rw [hsame, hnone]
    · exact hgone.symm

theorem outside_of_touched (h : Stash.Touched top t t') : Outside top t t' := by
  intro q hq
  refine h.elsewhere q ?_
  rintro ⟨name, rfl⟩
  exact hq (List.prefix_append top [name])

end FileTree

namespace FileM

open FileTree

variable {t t₁ : FileTree} {place : Place} {p : Path} {name : String}

/-- A directory is made again in a tree that has lost some of the way to it. -/
theorem outside_makeDirectories (h : t.Leads p.below place) (hslash : '/' ∉ name.toList)
    (hlong : 4 ≤ name.toList.length) (hpruned : Pruned t t₁)
    (houtside : Outside (place ++ [name]) t t₁) :
    Outside (place ++ [name]) t (outcome (makeDirectories (p.join name)) t₁).2 := by
  rw [makeDirectories]
  by_cases hclean : (p.join name).parts.any (·.contains '\x00') = true
  · rw [if_pos hclean]
    exact houtside
  -- the way to the work directory first, and then the last step
  rw [if_neg hclean, Path.parts_join p hslash, List.filter_append]
  have hname : PlainName name := by
    refine plainName_of_length hlong hslash fun hnul => hclean ?_
    rw [Path.parts_join p hslash, List.any_append]
    simp [hnul]
  have hfollow := (follow_filter_iff (get?_nil t) h.directory).mpr h.follow
  obtain ⟨u, htu, hu, hdir, hrun⟩ :=
    makeDirectoriesFrom_append_pruned hfollow h.directory hpruned (get?_nil t₁)
      ([name].filter (· ≠ ""))
  rw [hrun]
  have hbetween := houtside.of_between htu hu
  intro q hq
  rw [← hbetween q hq]
  have hlast : [name].filter (· ≠ "") = [name] :=
    List.filter_cons_of_pos (by simpa using hname.ne_empty)
  rw [hlast]
  refine makeDirectoriesFrom_get? (by simpa using Ne.symm hname.ne_up) fun hprefix => ?_
  rw [steps_cons_of_name (by simp [hname.ne_empty, hname.ne_here])] at hprefix
  rcases List.prefix_concat_iff.mp hprefix with rfl | hshort
  · exact absurd (List.prefix_refl _) hq
  · exact hshort.length_le

end FileM

namespace Stash

open FileTree

variable {s : Stash} {t : FileTree} {place : Place} {p : Path} {name : String}

/-- **Opening a stash** changes nothing outside its directory, however it ends. -/
theorem outside_open (h : t.Leads p.below place) (hslash : '/' ∉ name.toList)
    (hlong : 4 ≤ name.toList.length) (wipe : Bool) :
    Leaves (Outside (place ++ [name])) (open_ (p.join name) wipe) t := by
  have htop : place ++ [name] ≠ [] := by simp
  have hmake : ∀ t₁, Pruned t t₁ → Outside (place ++ [name]) t t₁ →
      Outside (place ++ [name]) t (outcome (FileM.makeDirectories (p.join name) >>= fun _ =>
        (pure ⟨p.join name, !t.isDirectory (p.join name) || wipe⟩ : FileM OsError Stash)) t₁).2 := by
    intro t₁ hpruned houtside
    have := FileM.outside_makeDirectories h hslash hlong hpruned houtside
    rw [outcome_bind]
    rcases hrun : outcome (FileM.makeDirectories (p.join name)) t₁ with ⟨e | ⟨⟩, t₂⟩ <;>
      rwa [hrun] at this
  unfold Leaves
  rw [open_, outcome_fileMapError, outcome_get_bind]
  show Outside _ t (outcome (if (t.isDirectory (p.join name) && wipe) = true then
    FileM.removeDirectory (p.join name) >>= fun _ => _ else _) t).2
  split_ifs with hexisted
  · rcases hrun : outcome (FileM.removeDirectory (p.join name)) t with ⟨e | ⟨⟩, t₁⟩
    · -- nothing was removed
      rw [outcome_bind_of_error hrun]
      rw [FileM.removeDirectory, outcome_change] at hrun
      split at hrun
      · cases congrArg Prod.fst hrun
      · obtain rfl := congrArg Prod.snd hrun
        exact refl_of (Outside (place ++ [name])) t
    · obtain ⟨q, hlocate, hdir, rfl⟩ := Session.removeDirectory_eq_ok.mp hrun
      obtain ⟨place', rfl, hwork, -⟩ :=
        Session.leads_of_join hslash hlong (leads_of_locate hlocate hdir)
      obtain rfl := follow_unique hwork.follow h.follow
      rw [outcome_bind_of_ok hrun]
      exact hmake _ (Session.pruned_eraseBelow htop) (outside_eraseBelow htop t)
  · exact hmake t (fun _ => .inl rfl) (refl_of (Outside (place ++ [name])) t)

/-- A stash that is there is opened without a change. -/
theorem open_of_isDirectory {base : Path} (h : t.isDirectory base = true) :
    outcome (open_ base false) t = (.ok ⟨base, false⟩, t) := by
  obtain ⟨q, hlocate, hdir⟩ := Session.isDirectory_iff.mp h
  exact Session.open_eq_ok.mpr ⟨t, by rw [Bool.and_false, if_neg Bool.false_ne_true],
    FileM.makeDirectories_of_leads (leads_of_locate hlocate hdir), by rw [h]; rfl⟩

/-- **Removing a stash** removes nothing outside its directory, however it ends. -/
theorem outside_freeAll (h : s.Sited t place) (htop : place ≠ []) :
    Leaves (Outside place) s.freeAll t := by
  rw [Leaves, freeAll_eq h]
  exact outside_eraseBelow htop t

end Stash

end BlockUpdate
