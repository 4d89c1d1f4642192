import BlockUpdate.Proofs.Confined
import BlockUpdate.Proofs.PartitionRecords
import BlockUpdate.Proofs.StashFiles

/-!
# One file among others

A path leads to one place at most, whatever the tree is like, and that place can be read off its
text. So an operation leaves a file alone, however it ends and whatever tree it meets, if its path
ends elsewhere; only the removal of a directory reaches further, to all that is below.

- `Path.ends`: the place where a path ends, read off its parts.
- `FileTree.KeepsFile`: the file at a place is as it was, or it is lost where files may get lost.
- **`keepsFile_perform`**, `keepsFile_removeIfPresent`, `keepsFile_removeDirectory`,
  `keepsFile_makeDirectories`: the operations on files, by where their paths end.
- **`Stash.keepsFile_store`**, `keepsFile_free`, `keepsFile_open`: a stash keeps the record of an
  update, because no entry is named like it.
-/

namespace BlockUpdate

/-! ## Where paths end -/

namespace Path

/-- Where a part leads from a place. -/
def step (place : Place) (part : String) : Place :=
  if part = "" ∨ part = "." then place
  else if part = ".." then place.dropLast
  else place ++ [part]

/-- The place where a path ends. -/
def ends (p : Path) : Place := p.parts.foldl step []

theorem step_of_plain {name : String} (hempty : name ≠ "") (hhere : name ≠ ".")
    (hup : name ≠ "..") (place : Place) : step place name = place ++ [name] := by
  rw [step, if_neg (by simp [hempty, hhere]), if_neg hup]

theorem step_empty (place : Place) : step place "" = place := if_pos (.inl rfl)

/-- Behind the parts of a directory, a name is one step further. -/
theorem ends_of_parts {p : Path} {pre : List String} {name : String} (hp : p.parts = pre ++ [name])
    (hempty : name ≠ "") (hhere : name ≠ ".") (hup : name ≠ "..") :
    p.ends = pre.foldl step [] ++ [name] := by
  rw [ends, hp, List.foldl_append]
  exact step_of_plain hempty hhere hup _

/-- The slash at the end of a directory makes no difference. -/
theorem foldl_below (p : Path) (place : Place) :
    p.below.foldl step place = p.parts.foldl step place := by
  rw [below]
  split_ifs with hempty hlast
  · obtain ⟨hall, -⟩ : p.parts.all (·.isEmpty) = true ∧ p.parts.length ≤ 1 := by
      simpa [isEmpty] using hempty
    have hparts : ∀ part ∈ p.parts, part = "" := by
      intro part hpart
      simpa using List.all_eq_true.mp hall part hpart
    generalize p.parts = parts at hparts
    induction parts with
    | nil => rfl
    | cons part rest ih =>
      rw [List.foldl_cons, hparts part List.mem_cons_self, step_empty]
      exact ih fun q hq => hparts q (List.mem_cons_of_mem _ hq)
  · obtain ⟨pre, hpre⟩ := List.getLast?_eq_some_iff.mp hlast
    rw [hpre, List.dropLast_concat, List.foldl_append]
    exact (step_empty _).symm
  · rfl

/-- **A plain name below a path** ends one step below it. -/
theorem ends_join (p : Path) {name : String} (h : PlainName name) :
    (p.join name).ends = p.ends ++ [name] := by
  rw [ends_of_parts (parts_join p h.noSlash) h.ne_empty h.ne_here h.ne_up, foldl_below, ends]

end Path

namespace Blank

/-- What follows the last separator goes on with what is added behind it. -/
theorem fieldsList_append {separator : Char} {ys : List Char} (h : separator ∉ ys)
    (xs : List Char) : ∃ pre stem, fieldsList separator (xs ++ ys) = pre ++ [stem ++ ys] := by
  induction xs with
  | nil => exact ⟨[], [], fieldsList_of_not_mem h⟩
  | cons x xs ih =>
    obtain ⟨pre, stem, hxs⟩ := ih
    rw [List.cons_append, fieldsList, hxs]
    split_ifs with hx
    · exact ⟨[] :: pre, stem, rfl⟩
    · cases pre with
      | nil => exact ⟨[], x :: stem, rfl⟩
      | cons first others => exact ⟨(x :: first) :: others, stem, rfl⟩

theorem fields_append {separator : Char} {ending : String} (h : separator ∉ ending.toList)
    (text : String) :
    ∃ pre stem, fields separator (text ++ ending) = pre ++ [stem ++ ending] := by
  obtain ⟨pre, stem, hfields⟩ := fieldsList_append h text.toList
  refine ⟨pre.map String.ofList, String.ofList stem, ?_⟩
  rw [fields, String.toList_append, hfields, List.map_append, List.map_singleton,
    String.ofList_append, String.ofList_toList]

end Blank

namespace Path

/-- The last part of a name is that of its path, also when there are slashes in the name. -/
theorem parts_join_append (p : Path) {ending : String} (h : '/' ∉ ending.toList) (name : String) :
    ∃ pre stem, (p.join (name ++ ending)).parts = pre ++ [stem ++ ending] := by
  obtain ⟨pre, stem, hfields⟩ := Blank.fields_append h name
  rw [join, ofText, hfields]
  split_ifs
  · exact ⟨pre, stem, rfl⟩
  · exact ⟨p.parts.dropLast ++ pre, stem, (List.append_assoc ..).symm⟩
  · exact ⟨p.parts ++ pre, stem, (List.append_assoc ..).symm⟩

end Path

namespace FileTree

variable {t t' : FileTree} {p : Path} {place q : Place}

/-- **Parts lead nowhere but to where they end.** -/
theorem eq_of_follow {parts : List String} {end_ : Place} (h : t.follow parts place = .ok end_) :
    end_ = parts.foldl Path.step place := by
  induction parts generalizing place with
  | nil => exact (Except.ok.inj h).symm
  | cons part rest ih =>
    rw [follow] at h
    rw [List.foldl_cons, Path.step]
    split at h
    · cases h
    · cases h
    · split_ifs at h ⊢ <;> exact ih h

theorem eq_ends_of_locate (h : t.locate p = .ok q) : q = p.ends := by
  rw [locate] at h
  split_ifs at h
  exact eq_of_follow h

theorem Leads.eq_ends (h : t.Leads p.parts place) : place = p.ends := eq_of_follow h.follow

/-! ## The file at a place -/

/-- The contents of the file at a place, if there is one. -/
def file? (t : FileTree) (q : Place) : Option Bytes :=
  match t.get? q with
  | some (.file data) => some data
  | _ => none

theorem file?_eq_some {data : Bytes} : t.file? q = some data ↔ t.get? q = some (.file data) := by
  rw [file?]
  rcases t.get? q with _ | _ | _ <;> simp

theorem file?_congr (h : t'.get? q = t.get? q) : t'.file? q = t.file? q := by rw [file?, file?, h]

/-- What is read is the file where the path ends. -/
theorem file?_of_read {data : Bytes} (h : t.read p = .ok data) : t.file? p.ends = some data := by
  obtain ⟨found, hnode, h⟩ := except_bind_eq_ok.mp h
  obtain ⟨q, hlocate, hfound⟩ := except_bind_eq_ok.mp hnode
  rw [← eq_ends_of_locate hlocate, file?_eq_some]
  rcases hget : t.get? q with _ | there <;> rw [hget] at hfound
  · cases hfound
  · obtain rfl : there = found := Except.ok.inj hfound
    cases there with
    | file contents => exact congrArg (fun contents => some (Node.file contents)) (Except.ok.inj h)
    | directory => cases h

/-- What is put elsewhere. -/
theorem file?_put_of_ne (h : q ≠ place) (node : Node) : (t.put place node).file? q = t.file? q := by
  refine file?_congr ?_
  have hkept := lookup_filter t.nodes (fun p => decide (p ≠ place)) q
  rw [if_pos (decide_eq_true h)] at hkept
  rw [get?, get?, put, List.lookup_cons, beq_eq_false_iff_ne.mpr h]
  exact congrArg _ hkept

theorem file?_erase_of_ne (h : q ≠ place) : (t.erase place).file? q = t.file? q := by
  refine file?_congr ?_
  have hkept := lookup_filter t.nodes (fun p => decide (p ≠ place)) q
  rw [if_pos (decide_eq_true h)] at hkept
  rw [get?, get?, erase]
  exact congrArg _ hkept

/-- What is removed with all that is below it. -/
theorem file?_eraseBelow (t : FileTree) (place q : Place) :
    (t.eraseBelow place).file? q = if place.isPrefixOf q then none else t.file? q := by
  rw [file?, file?, get?, get?, eraseBelow, lookup_filter t.nodes (fun p => !place.isPrefixOf p) q]
  by_cases hq : q = []
  · subst hq
    cases place <;> rfl
  · rw [if_neg hq, if_neg hq]
    cases place.isPrefixOf q <;> rfl

/-- **The file at a place is as it was**, or it is lost where files may get lost. -/
def KeepsFile (lost : Prop) (q : Place) (t t' : FileTree) : Prop :=
  t'.file? q = t.file? q ∨ lost ∧ t'.file? q = none

variable {lost : Prop}

instance : IsPreorder FileTree (KeepsFile lost q) where
  refl _ := .inl rfl
  trans _ _ _ h h' := by
    rcases h' with h' | h'
    · rw [KeepsFile, h']
      exact h
    · exact .inr h'

/-- Where nothing gets lost, all is as it was. -/
theorem KeepsFile.eq (h : KeepsFile False q t t') : t'.file? q = t.file? q :=
  h.resolve_right fun h => h.1

theorem keepsFile_put_of_ne (h : q ≠ place) (node : Node) : KeepsFile lost q t (t.put place node) :=
  .inl (file?_put_of_ne h node)

theorem keepsFile_eraseBelow (h : lost ∨ ¬ place <+: q) : KeepsFile lost q t (t.eraseBelow place) := by
  rw [KeepsFile, file?_eraseBelow]
  by_cases hbelow : place.isPrefixOf q = true
  · rw [if_pos hbelow]
    exact .inr ⟨h.resolve_right fun hnot => hnot (List.isPrefixOf_iff_prefix.mp hbelow), rfl⟩
  · rw [if_neg hbelow]
    exact .inl rfl

end FileTree

/-! ## Operations on files -/

/-- The paths that a step writes to. -/
def FileEffect.paths : FileEffect → List Path
  | .create p => [p]
  | .append p _ => [p]
  | .sync _ => []
  | .rename source target => [source, target]

section Leaves

variable {ε ε' α : Type} {R : FileTree → FileTree → Prop} {t : FileTree}

/-- Renamed errors leave the files as they are. -/
theorem Leaves.fileMapError {f : ε → ε'} {x : FileM ε α} (h : Leaves R x t) :
    Leaves R (FileM.mapError f x) t := by
  unfold Leaves
  rw [outcome_fileMapError]
  exact h

theorem Leaves.tolerateAbsence {x : FileM OsError Unit} (h : Leaves R x t) :
    Leaves R (FileM.removeIfPresent.tolerateAbsence x) t := by
  unfold Leaves
  rw [FileM.outcome_tolerateAbsence_snd]
  exact h

theorem Leaves.change [IsPreorder FileTree R] {f : FileTree → Except ε FileTree}
    (h : ∀ t', f t = .ok t' → R t t') : Leaves R (FileM.change f) t := by
  unfold Leaves
  rw [outcome_change]
  rcases hf : f t with _ | t'
  · exact refl_of R t
  · exact h t' hf

end Leaves

namespace FileM

open FileTree

variable {t t' : FileTree} {p : Path} {q : Place} {lost : Prop}

theorem keepsFile_after {step : FileEffect} (hpaths : ∀ p ∈ step.paths, p.ends ≠ q)
    (h : t.after step = .ok t') : KeepsFile lost q t t' := by
  cases step with
  | create p =>
    obtain ⟨place, hlocate, h⟩ := except_bind_eq_ok.mp h
    have hne : q ≠ place := by
      rintro rfl
      exact hpaths p List.mem_cons_self (eq_ends_of_locate hlocate).symm
    rcases hget : t.get? place with _ | _ | _ <;> simp only [hget] at h
    · exact Except.ok.inj h ▸ keepsFile_put_of_ne hne _
    · exact Except.ok.inj h ▸ keepsFile_put_of_ne hne _
    · cases h
  | append p data =>
    obtain ⟨place, hlocate, h⟩ := except_bind_eq_ok.mp h
    have hne : q ≠ place := by
      rintro rfl
      exact hpaths p List.mem_cons_self (eq_ends_of_locate hlocate).symm
    rcases hget : t.get? place with _ | _ | _ <;> simp only [hget] at h
    · cases h
    · exact Except.ok.inj h ▸ keepsFile_put_of_ne hne _
    · cases h
  | sync p =>
    obtain ⟨node, -, h⟩ := except_bind_eq_ok.mp h
    exact Except.ok.inj h ▸ refl_of (KeepsFile lost q) t
  | rename source target =>
    obtain ⟨old, hold, h⟩ := except_bind_eq_ok.mp h
    obtain ⟨new, hnew, h⟩ := except_bind_eq_ok.mp h
    have hne : q ≠ old := by
      rintro rfl
      exact hpaths source List.mem_cons_self (eq_ends_of_locate hold).symm
    have hne' : q ≠ new := by
      rintro rfl
      exact hpaths target (List.mem_cons_of_mem _ List.mem_cons_self) (eq_ends_of_locate hnew).symm
    split at h
    · cases h
    · cases h
    · refine Except.ok.inj h ▸ .inl ?_
      rw [file?_put_of_ne hne', file?_erase_of_ne hne]

/-- **Steps keep every file that they do not write to**, wherever they stop. -/
theorem keepsFile_perform {steps : List FileEffect}
    (hpaths : ∀ step ∈ steps, ∀ p ∈ step.paths, p.ends ≠ q) (t : FileTree) :
    Leaves (KeepsFile lost q) (perform steps) t := by
  induction steps generalizing t with
  | nil => exact Leaves.pure ()
  | cons step rest ih =>
    show Leaves _ (change (·.after step) >>= fun _ => perform rest) t
    exact Leaves.bind (Leaves.change fun t' => keepsFile_after (hpaths step List.mem_cons_self))
      fun _ t' _ _ => ih (fun s hs => hpaths s (List.mem_cons_of_mem _ hs)) t'

theorem keepsFile_overwrite (hp : p.ends ≠ q) (data : Bytes) (t : FileTree) :
    Leaves (KeepsFile lost q) (overwrite p data) t := by
  refine keepsFile_perform (fun step hstep p' hp' => ?_) t
  simp only [overwriteSteps, List.mem_cons, List.not_mem_nil, or_false] at hstep
  rcases hstep with rfl | rfl | rfl <;> simp only [FileEffect.paths, List.mem_cons, List.not_mem_nil,
    or_false] at hp' <;> exact hp' ▸ hp

/-- What becomes of a file that is written anew: it may be left as it was, or empty. -/
theorem file?_overwrite (p : Path) (data : Bytes) (t : FileTree) :
    (outcome (overwrite p data) t).2.file? p.ends = t.file? p.ends ∨
      (outcome (overwrite p data) t).2.file? p.ends = some ByteArray.empty ∨
      (outcome (overwrite p data) t).2.file? p.ends = some data := by
  have hput : ∀ (t : FileTree) {place : Place} (contents : Bytes), t.locate p = .ok place →
      t.get? place ≠ some .directory →
        (t.put place (.file contents)).get? p.ends = some (.file contents) := by
    intro t place contents hlocate hdir
    have hne : place ≠ [] := by
      rintro rfl
      exact hdir rfl
    rw [← eq_ends_of_locate hlocate, get?_put t hne, if_pos rfl]
  rw [overwrite, overwriteSteps, outcome_perform_cons]
  rcases hcreate : t.after (.create p) with e | t₁
  · exact .inl rfl
  refine .inr ?_
  obtain ⟨place, hlocate, hcreate⟩ := except_bind_eq_ok.mp hcreate
  have hempty : t₁.get? p.ends = some (.file ByteArray.empty) := by
    rcases hget : t.get? place with _ | _ | _ <;> simp only [hget] at hcreate
    · exact Except.ok.inj hcreate ▸ hput t _ hlocate (by simp [hget])
    · exact Except.ok.inj hcreate ▸ hput t _ hlocate (by simp [hget])
    · cases hcreate
  simp only
  rw [outcome_perform_cons]
  rcases happend : t₁.after (.append p data) with e | t₂
  · exact .inl (file?_eq_some.mpr hempty)
  refine .inr (file?_eq_some.mpr ?_)
  obtain ⟨place', hlocate', happend⟩ := except_bind_eq_ok.mp happend
  obtain rfl := eq_ends_of_locate hlocate'
  simp only [hempty] at happend
  have hfilled : t₂.get? p.ends = some (.file data) := by
    rw [← Except.ok.inj happend, ByteArray.empty_append]
    exact hput t₁ data hlocate' (by simp [hempty])
  -- waiting for the medium changes nothing
  simp only
  rw [outcome_perform_cons]
  rcases hsync : t₂.after (.sync p) with e | t₃
  · exact hfilled
  · obtain ⟨_, -, hsync⟩ := except_bind_eq_ok.mp hsync
    exact Except.ok.inj hsync ▸ hfilled

/-- **Removing a file** keeps every other one. -/
theorem keepsFile_removeIfPresent (hp : lost ∨ p.ends ≠ q) (t : FileTree) :
    Leaves (KeepsFile lost q) (removeIfPresent p) t := by
  refine Leaves.tolerateAbsence (Leaves.change fun t' h => ?_)
  obtain ⟨place, hlocate, h⟩ := except_bind_eq_ok.mp h
  rw [← eq_ends_of_locate hlocate] at hp
  rcases hget : t.get? place with _ | data | _ <;> simp only [hget] at h
  · cases h
  · obtain rfl := Except.ok.inj h
    by_cases hq : q = place
    · subst hq
      have hne : q ≠ [] := by
        rintro rfl
        cases hget
      refine .inr ⟨hp.resolve_right fun hnot => hnot rfl, ?_⟩
      rw [file?, get?_erase t hne, if_pos rfl]
    · exact .inl (file?_erase_of_ne hq)
  · cases h

/-- **Removing a directory** keeps what is not below it. -/
theorem keepsFile_removeDirectory (hp : lost ∨ ¬ p.ends <+: q) (t : FileTree) :
    Leaves (KeepsFile lost q) (removeDirectory p) t := by
  refine Leaves.change fun t' h => ?_
  obtain ⟨place, hlocate, h⟩ := except_bind_eq_ok.mp h
  rw [← eq_ends_of_locate hlocate] at hp
  rcases hget : t.get? place with _ | _ | _ <;> simp only [hget] at h
  · cases h
  · cases h
  · exact Except.ok.inj h ▸ keepsFile_eraseBelow hp

theorem keepsFile_makeDirectoriesFrom (parts : List String) (place : Place) (t : FileTree) :
    Leaves (KeepsFile lost q) (makeDirectoriesFrom parts place) t := by
  induction parts generalizing place t with
  | nil => exact Leaves.pure ()
  | cons part rest ih =>
    refine Leaves.bind (refl_of (KeepsFile lost q) t) fun next t₁ _ _ => Leaves.get_bind ?_
    rcases hget : t₁.get? next with _ | _ | _
    · refine Leaves.bind (Leaves.modify ?_) fun _ t₂ _ _ => ih next t₂
      -- there was no file where the directory is now
      by_cases hq : q = next
      · subst hq
        have hne : q ≠ [] := ne_nil_of_get?_eq_none hget
        refine .inl ?_
        rw [file?, file?, get?_put t₁ hne, if_pos rfl, hget]
      · exact keepsFile_put_of_ne hq _
    · exact Leaves.ite (fun _ => Leaves.throw _) fun _ => Leaves.throw _
    · exact ih next t₁

/-- **Making directories** keeps every file. -/
theorem keepsFile_makeDirectories (p : Path) (t : FileTree) :
    Leaves (KeepsFile lost q) (makeDirectories p) t :=
  Leaves.ite (fun _ => Leaves.bind (Leaves.throw _) fun _ t' _ _ =>
    keepsFile_makeDirectoriesFrom _ _ t') fun _ => keepsFile_makeDirectoriesFrom _ _ t

end FileM

/-! ## Stashes and markers beside the record -/

open FileTree PartitionRecord

variable {t : FileTree} {dir : Place} {lost : Prop}

namespace Stash

variable {s : Stash} {id : String}

theorem ends_entry_ne (s : Stash) (hid : validId id = true) :
    (s.base.join id).ends ≠ recordAt dir := by
  rw [Path.ends_join _ (plainName_of_validId hid), recordAt]
  intro heq
  obtain rfl : id = fileName := by simpa using (List.append_inj' heq rfl).2
  exact absurd hid (by decide)

theorem ends_temporaryPath_ne (s : Stash) (hid : validId id = true) :
    (s.temporaryPath id).ends ≠ recordAt dir := by
  rw [show s.temporaryPath id = s.base.join (temporaryName id) from rfl,
    Path.ends_join _ (plainName_temporaryName hid), recordAt]
  intro heq
  have hname : temporaryName id = fileName := by simpa using (List.append_inj' heq rfl).2
  have hfirst := congrArg (fun name => name.toList.head?) hname
  simp only [toList_temporaryName, List.head?_cons] at hfirst
  exact absurd hfirst (by decide)

theorem validId_of_entryPath {p : Path} (h : s.entryPath id = .ok p) :
    validId id = true ∧ p = s.base.join id := by
  rw [entryPath] at h
  split_ifs at h with hid
  exact ⟨hid, (Except.ok.inj h).symm⟩

/-- **Storing an entry** keeps the record, wherever the stash is and however it ends. -/
theorem keepsFile_store (s : Stash) (id : String) (data : Bytes) (t : FileTree) :
    Leaves (KeepsFile lost (recordAt dir)) (s.store id data) t := by
  refine Leaves.bind (refl_of (KeepsFile lost (recordAt dir)) t) fun path t₁ hlook _ => ?_
  obtain ⟨hid, rfl⟩ := validId_of_entryPath (fileLook_eq_ok.mp hlook).1
  refine (FileM.keepsFile_perform (fun step hstep p hp => ?_) t₁).fileMapError
  simp only [storeSteps, List.mem_cons, List.not_mem_nil, or_false] at hstep
  rcases hstep with rfl | rfl | rfl | rfl | rfl <;>
    simp only [FileEffect.paths, List.mem_cons, List.not_mem_nil, or_false] at hp
  · exact hp ▸ s.ends_temporaryPath_ne hid
  · exact hp ▸ s.ends_temporaryPath_ne hid
  · rcases hp with rfl | rfl
    · exact s.ends_temporaryPath_ne hid
    · exact s.ends_entry_ne hid

theorem keepsFile_free (s : Stash) (id : String) (t : FileTree) :
    Leaves (KeepsFile lost (recordAt dir)) (s.free id) t := by
  refine Leaves.bind (refl_of (KeepsFile lost (recordAt dir)) t) fun path t₁ hlook _ => ?_
  obtain ⟨hid, rfl⟩ := validId_of_entryPath (fileLook_eq_ok.mp hlook).1
  exact (FileM.keepsFile_removeIfPresent (.inr (s.ends_entry_ne hid)) t₁).fileMapError

variable {q : Place}

theorem keepsFile_freeAll (hbase : lost ∨ ¬ s.base.ends <+: q) (t : FileTree) :
    Leaves (KeepsFile lost q) s.freeAll t :=
  (FileM.keepsFile_removeDirectory hbase t).tolerateAbsence.fileMapError

/-- **Opening a stash** removes what is below its directory, if it is to be wiped. -/
theorem keepsFile_open {base : Path} {wipe : Bool} (hbase : wipe = true → lost ∨ ¬ base.ends <+: q)
    (t : FileTree) : Leaves (KeepsFile lost q) (open_ base wipe) t := by
  have hmake : ∀ (created : Bool) (t' : FileTree), Leaves (KeepsFile lost q)
      (FileM.makeDirectories base >>= fun _ => (pure ⟨base, created⟩ : FileM OsError Stash)) t' :=
    fun _ t' => Leaves.bind (FileM.keepsFile_makeDirectories base t') fun _ _ _ _ => Leaves.pure _
  refine Leaves.fileMapError (Leaves.get_bind (Leaves.ite (fun hwipe => ?_) fun _ => hmake _ t))
  have hwiped := hbase (Bool.and_eq_true_iff.mp hwipe).2
  exact Leaves.bind (FileM.keepsFile_removeDirectory hwiped t) fun _ t' _ _ => hmake _ t'

end Stash

namespace RetryMarker

/-- **A marker is not the record**, whatever the name of its partition is. -/
theorem ends_path_ne (workDir : Path) (partition : String) :
    (path workDir partition).ends ≠ recordAt dir := by
  have hslash : '/' ∉ ".retry.json".toList := by decide
  obtain ⟨pre, stem, hparts⟩ := workDir.parts_join_append hslash partition
  have hlong : ∀ {name : String}, stem ++ ".retry.json" = name → 11 ≤ name.toList.length := by
    rintro _ rfl
    rw [String.toList_append, List.length_append, show ".retry.json".toList.length = 11 by decide]
    omega
  rw [path, Path.ends_of_parts hparts (fun h => absurd (hlong h) (by decide))
    (fun h => absurd (hlong h) (by decide)) (fun h => absurd (hlong h) (by decide)), recordAt]
  intro heq
  have hname : stem ++ ".retry.json" = fileName := by simpa using (List.append_inj' heq rfl).2
  have hsuffix : ".retry.json".toList <:+ fileName.toList := by
    rw [← hname, String.toList_append]
    exact List.suffix_append ..
  exact absurd hsuffix (by decide)

variable {p : Path} {q : Place}

theorem keepsFile_save (hp : p.ends ≠ q) (m : RetryMarker) (t : FileTree) :
    Leaves (KeepsFile lost q) (m.save p) t := (FileM.keepsFile_overwrite hp _ t).fileMapError

theorem keepsFile_remove (hp : p.ends ≠ q) (t : FileTree) :
    Leaves (KeepsFile lost q) (remove p) t := (FileM.keepsFile_removeIfPresent (.inr hp) t).fileMapError

end RetryMarker

end BlockUpdate
