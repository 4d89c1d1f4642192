import BlockUpdate.Proofs.Outcome
import Mathlib.Tactic.SplitIfs

/-!
# Where paths lead

A path is followed through directories, so it leads to the same place in every tree that has at
least the same directories. What is below a directory is then looked up by its name alone.

- `Path.below`, `Path.parts_join`: a plain name below a path.
- `FileTree.Leads`: a list of parts leads to a directory.
- `Leads.mono`, **`Leads.node`**: it does so in every tree with more directories, and what a name
  below it denotes is what is there.
- `FileTree.WellFormed`: everything is in a directory.
- **`makeDirectories_eq_ok`**: a directory that was made is there, and nothing but directories is
  new; `makeDirectories_of_leads`: one that is there is not made again.
- `overwrite_of_locate`, **`overwrite_eq_ok`**: the contents of a file are replaced where its path
  leads.
-/

namespace BlockUpdate

/-! ## Names -/

/-- A name that denotes an entry of a directory. -/
structure PlainName (name : String) : Prop where
  ne_empty : name ≠ ""
  ne_here : name ≠ "."
  ne_up : name ≠ ".."
  noSlash : '/' ∉ name.toList
  noNul : '\x00' ∉ name.toList

/-- A name of four characters or more is plain, whatever these are but for two of them. -/
theorem plainName_of_length {name : String} (hlength : 4 ≤ name.toList.length)
    (hslash : '/' ∉ name.toList) (hnul : '\x00' ∉ name.toList) : PlainName name := by
  refine ⟨?_, ?_, ?_, hslash, hnul⟩ <;>
  · rintro rfl
    exact absurd hlength (by decide)

namespace Blank

theorem fieldsList_of_not_mem {separator : Char} {cs : List Char} (h : separator ∉ cs) :
    fieldsList separator cs = [cs] := by
  induction cs with
  | nil => rfl
  | cons c cs ih =>
    rw [List.mem_cons, not_or] at h
    rw [fieldsList, if_neg (Ne.symm h.1), ih h.2]

theorem fields_of_not_mem {separator : Char} {text : String} (h : separator ∉ text.toList) :
    fields separator text = [text] := by
  rw [fields, fieldsList_of_not_mem h, List.map_cons, List.map_nil, String.ofList_toList]

end Blank

namespace Path

/-- The parts that come before a name below a path. -/
def below (p : Path) : List String :=
  if p.isEmpty then []
  else if p.parts.getLast? = some "" then p.parts.dropLast
  else p.parts

/-- **A name below a path is its last part.** -/
theorem parts_join (p : Path) {name : String} (h : '/' ∉ name.toList) :
    (p.join name).parts = p.below ++ [name] := by
  have habsolute : isAbsolute ⟨[name]⟩ = false := by
    rw [isAbsolute]
    split
    · rename_i hparts
      simp at hparts
    · rfl
  rw [join, ofText, Blank.fields_of_not_mem h, habsolute, below]
  by_cases hempty : p.isEmpty = true
  · simp [hempty]
  · by_cases hlast : p.parts.getLast? = some ""
    · simp [hempty, hlast]
    · simp [hempty, hlast]

/-- Nothing but an empty part is left out before a name. -/
theorem mem_of_mem_below {p : Path} {part : String} (h : part ∈ p.below) : part ∈ p.parts := by
  rw [below] at h
  split_ifs at h
  · cases h
  · exact (List.dropLast_sublist _).subset h
  · exact h

/-- Behind a plain name, parts just follow. -/
theorem below_of_parts {p : Path} {pre : List String} {name : String}
    (hp : p.parts = pre ++ [name]) (hname : name ≠ "") : p.below = p.parts := by
  have hempty : p.isEmpty = false := by
    rw [isEmpty, hp]
    simp [hname]
  have hlast : p.parts.getLast? ≠ some "" := by
    rw [hp]
    simpa using hname
  rw [below, hempty, if_neg (by simp), if_neg hlast]

end Path

namespace FileTree

variable {t t' : FileTree}

/-! ## Following -/

theorem follow_append (t : FileTree) (xs ys : List String) (place : Place) :
    t.follow (xs ++ ys) place = (do t.follow ys (← t.follow xs place)) := by
  induction xs generalizing place with
  | nil => rfl
  | cons x xs ih =>
    rw [List.cons_append, follow, follow]
    rcases t.get? place with _ | _ | _
    · rfl
    · rfl
    · show (if _ then _ else _) = _
      split_ifs <;> first | exact ih _ | rfl

/-- Parts lead to the same place in a tree with more directories. -/
theorem follow_mono (h : ∀ p, t.get? p = some .directory → t'.get? p = some .directory)
    {parts : List String} {place end_ : Place} (hfollow : t.follow parts place = .ok end_) :
    t'.follow parts place = .ok end_ := by
  induction parts generalizing place with
  | nil => exact hfollow
  | cons part rest ih =>
    rw [follow] at hfollow ⊢
    rcases hplace : t.get? place with _ | _ | _
    · rw [hplace] at hfollow
      cases hfollow
    · rw [hplace] at hfollow
      cases hfollow
    · rw [hplace] at hfollow
      rw [h place hplace]
      show (if _ then _ else _) = _
      change (if _ then _ else _) = _ at hfollow
      split_ifs at hfollow ⊢ <;> exact ih hfollow

/-- Where parts lead does not depend on the tree, if they lead anywhere. -/
theorem follow_unique {parts : List String} {place end_ end' : Place}
    (h : t.follow parts place = .ok end_) (h' : t'.follow parts place = .ok end') :
    end_ = end' := by
  induction parts generalizing place with
  | nil => exact Except.ok.inj (h.symm.trans h')
  | cons part rest ih =>
    rw [follow] at h h'
    split at h <;> first | cases h | skip
    split at h' <;> first | cases h' | skip
    split_ifs at h h' <;> exact ih h h'

/-- A plain name leads one step down. -/
theorem follow_name {name : String} (hname : PlainName name) {place : Place}
    (hplace : t.get? place = some .directory) :
    t.follow [name] place =
      if maxName < name.utf8ByteSize then .error (.errno Errno.nameTooLong)
      else .ok (place ++ [name]) := by
  rw [follow, hplace]
  show (if _ then _ else if _ then _ else _) = _
  rw [if_neg (by simp [hname.ne_empty, hname.ne_here]), if_neg hname.ne_up]
  rfl

/-! ## Directories -/

/-- Parts lead to a directory. -/
structure Leads (t : FileTree) (parts : List String) (place : Place) : Prop where
  clean : parts.any (·.contains '\x00') = false
  follow : t.follow parts [] = .ok place
  directory : t.get? place = some .directory

namespace Leads

variable {parts : List String} {place : Place} {name : String}

theorem mono (h : t.Leads parts place)
    (hmore : ∀ p, t.get? p = some .directory → t'.get? p = some .directory) :
    t'.Leads parts place :=
  ⟨h.clean, follow_mono hmore h.follow, hmore _ h.directory⟩

/-- Where a name below a directory leads. -/
theorem locate (h : t.Leads parts place) (hname : PlainName name) {p : Path}
    (hp : p.parts = parts ++ [name]) :
    t.locate p = if maxName < name.utf8ByteSize then .error (.errno Errno.nameTooLong)
      else .ok (place ++ [name]) := by
  have hclean : p.parts.any (·.contains '\x00') = false := by
    rw [hp, List.any_append, h.clean]
    simp [hname.noNul]
  have hempty : p.isEmpty = false := by
    rw [Path.isEmpty, hp]
    simp [hname.ne_empty]
  rw [FileTree.locate, hclean, hempty, hp, follow_append, h.follow]
  exact follow_name hname h.directory

theorem locate_of_le (h : t.Leads parts place) (hname : PlainName name) {p : Path}
    (hp : p.parts = parts ++ [name]) (hsize : name.utf8ByteSize ≤ maxName) :
    t.locate p = .ok (place ++ [name]) := by
  rw [h.locate hname hp, if_neg (by omega)]

/-- **What a name below a directory denotes.** -/
theorem node (h : t.Leads parts place) (hname : PlainName name) {p : Path}
    (hp : p.parts = parts ++ [name]) :
    t.node p = if maxName < name.utf8ByteSize then .error (.errno Errno.nameTooLong)
      else match t.get? (place ++ [name]) with
        | some found => .ok found
        | none => .error (.errno Errno.noEntry) := by
  rw [FileTree.node, h.locate hname hp]
  split_ifs
  · rfl
  · show (match t.get? (place ++ [name]) with
      | some found => (pure found : Except OsError Node)
      | none => throw (OsError.errno Errno.noEntry)) = _
    rcases t.get? (place ++ [name]) with _ | _ <;> rfl

/-- The directory itself. -/
theorem locate_self {p : Path} (h : t.Leads p.parts place) (hp : p.isEmpty = false) :
    t.locate p = .ok place := by
  rw [FileTree.locate, h.clean, hp]
  exact h.follow

theorem node_self {p : Path} (h : t.Leads p.parts place) (hp : p.isEmpty = false) :
    t.node p = .ok .directory := by
  rw [FileTree.node, h.locate_self hp]
  show (match t.get? place with
    | some found => (pure found : Except OsError Node)
    | none => throw (OsError.errno Errno.noEntry)) = _
  rw [h.directory]
  rfl

/-- A directory below a directory. -/
theorem child (h : t.Leads parts place) (hname : PlainName name)
    (hsize : name.utf8ByteSize ≤ maxName) (hdir : t.get? (place ++ [name]) = some .directory) :
    t.Leads (parts ++ [name]) (place ++ [name]) where
  clean := by
    rw [List.any_append, h.clean]
    simp [hname.noNul]
  follow := by
    rw [follow_append, h.follow]
    show t.follow [name] place = _
    rw [follow_name hname h.directory, if_neg (by omega)]
  directory := hdir

end Leads

@[simp] theorem get?_nil (t : FileTree) : t.get? [] = some .directory := rfl

/-- What is found as a directory is one that its path leads to. -/
theorem leads_of_locate {p : Path} {place : Place} (h : t.locate p = .ok place)
    (hdir : t.get? place = some .directory) : t.Leads p.parts place := by
  rw [FileTree.locate] at h
  split_ifs at h with hnul
  exact ⟨Bool.eq_false_iff.mpr hnul, h, hdir⟩

/-- Everything is in a directory. -/
def WellFormed (t : FileTree) : Prop :=
  ∀ place, place ≠ [] → t.get? place ≠ none → t.get? place.dropLast = some .directory

/-- What has an entry is a directory. -/
theorem WellFormed.parent (h : t.WellFormed) {place : Place} {name : String}
    (hthere : t.get? (place ++ [name]) ≠ none) : t.get? place = some .directory := by
  have hparent := h (place ++ [name]) (by simp) hthere
  rwa [List.dropLast_concat] at hparent

/-! ## Removing -/

/-- A tree from which something was removed. -/
def Pruned (t t' : FileTree) : Prop := ∀ p, t'.get? p = t.get? p ∨ t'.get? p = none

theorem Pruned.trans {t'' : FileTree} (h : Pruned t t') (h' : Pruned t' t'') : Pruned t t'' := by
  intro p
  rcases h' p with h' | h'
  · rw [h']
    exact h p
  · exact .inr h'

theorem Pruned.directory (h : Pruned t t') {p : Place} (hp : t'.get? p = some .directory) :
    t.get? p = some .directory := by
  rcases h p with hsame | hnone
  · rw [← hsame, hp]
  · rw [hnone] at hp
    cases hp

/-- In a pruned tree a way leads to the same place, or nowhere. -/
theorem follow_pruned (h : Pruned t t') {parts : List String} {place end_ : Place}
    (hfollow : t.follow parts place = .ok end_) :
    t'.follow parts place = .ok end_ ∨
      t'.follow parts place = .error (.errno Errno.noEntry) := by
  induction parts generalizing place with
  | nil => exact .inl hfollow
  | cons part rest ih =>
    rw [follow] at hfollow ⊢
    rcases hplace : t.get? place with _ | _ | _
    · rw [hplace] at hfollow
      cases hfollow
    · rw [hplace] at hfollow
      cases hfollow
    · rw [hplace] at hfollow
      rcases h place with hsame | hnone
      · rw [hsame, hplace]
        show (if _ then _ else _) = _ ∨ (if _ then _ else _) = _
        change (if _ then _ else _) = _ at hfollow
        split_ifs at hfollow ⊢ <;> exact ih hfollow
      · rw [hnone]
        exact .inr rfl

/-- Where something was removed, a path finds nothing. -/
theorem node_pruned (h : Pruned t t') {p : Path} {place : Place} (hlocate : t.locate p = .ok place)
    (hgone : t'.get? place = none) : t'.node p = .error (.errno Errno.noEntry) := by
  rw [FileTree.locate] at hlocate
  rw [FileTree.node, FileTree.locate]
  split_ifs at hlocate with hnul hempty
  rw [if_neg hnul, if_neg hempty]
  rcases follow_pruned h hlocate with hfollow | hfollow
  · rw [hfollow]
    show (match t'.get? place with
      | some found => (pure found : Except OsError Node)
      | none => throw (OsError.errno Errno.noEntry)) = _
    rw [hgone]
    rfl
  · rw [hfollow]
    rfl

/-! ## Making directories -/

/-- A tree to which directories were added. -/
structure Grown (t t' : FileTree) : Prop where
  get? : ∀ p, t'.get? p = t.get? p ∨ t.get? p = none ∧ t'.get? p = some .directory
  nodes : ∀ node ∈ t'.nodes, node ∈ t.nodes ∨ node.2 = .directory

theorem Grown.refl (t : FileTree) : Grown t t := ⟨fun _ => .inl rfl, fun _ h => .inl h⟩

theorem Grown.trans {t'' : FileTree} (h : Grown t t') (h' : Grown t' t'') : Grown t t'' where
  get? p := by
    rcases h.get? p with h | ⟨hnone, h⟩ <;> rcases h'.get? p with h' | ⟨hnone', h'⟩
    · exact .inl (h'.trans h)
    · exact .inr ⟨h.symm.trans hnone', h'⟩
    · exact .inr ⟨hnone, h'.trans h⟩
    · exact .inr ⟨hnone, h'⟩
  nodes node hnode := by
    rcases h'.nodes node hnode with hnode | hdir
    · exact h.nodes node hnode
    · exact .inr hdir

theorem Grown.directory (h : Grown t t') {p : Place} (hp : t.get? p = some .directory) :
    t'.get? p = some .directory := by
  rcases h.get? p with h | ⟨hnone, -⟩
  · rw [h, hp]
  · rw [hnone] at hp
    cases hp

theorem ne_nil_of_get?_eq_none {p : Place} (h : t.get? p = none) : p ≠ [] := by
  rintro rfl
  cases h

theorem Grown.put {p : Place} (h : t.get? p = none) : Grown t (t.put p .directory) where
  get? q := by
    rw [get?_put t (ne_nil_of_get?_eq_none h)]
    split_ifs with hq
    · exact .inr ⟨hq ▸ h, rfl⟩
    · exact .inl rfl
  nodes node hnode := by
    rcases List.mem_cons.mp hnode with rfl | hnode
    · exact .inr rfl
    · exact .inl (List.mem_filter.mp hnode).1

/-- What is listed can be looked up. -/
theorem get?_ne_none_of_mem {node : Place × Node} (h : node ∈ t.nodes) : t.get? node.1 ≠ none := by
  rw [get?]
  split_ifs
  · simp
  · intro hnone
    have := List.lookup_eq_none_iff.mp hnone node h
    simp at this

/-- What can be looked up is listed. -/
theorem mem_of_get? {p : Place} {node : Node} (hp : p ≠ []) (h : t.get? p = some node) :
    (p, node) ∈ t.nodes := by
  rw [get?, if_neg hp] at h
  obtain ⟨before, after, hnodes, -⟩ := List.lookup_eq_some_iff.mp h
  rw [hnodes]
  simp

/-- The step from a directory to an entry of it, or to one on the way there. -/
theorem dropLast_of_follow_one {part : String} {place next : Place}
    (h : t.follow [part] place = .ok next) :
    next = place ∨ next = place.dropLast ∨ next.dropLast = place := by
  rw [follow] at h
  split at h
  · cases h
  · cases h
  · split_ifs at h
    · exact .inl (Except.ok.inj h).symm
    · exact .inr (.inl (Except.ok.inj h).symm)
    · refine .inr (.inr ?_)
      rw [← Except.ok.inj h, List.dropLast_concat]

/-- A part is looked up in a directory. -/
theorem get?_of_follow_cons {part : String} {rest : List String} {place end_ : Place}
    (h : t.follow (part :: rest) place = .ok end_) : t.get? place = some .directory := by
  rw [follow] at h
  split at h
  · cases h
  · cases h
  · assumption

/-- What leads to a directory leads to the one above it. -/
theorem Leads.parent {parts : List String} {end_ : Place} {name : String} (hname : PlainName name)
    (h : t.Leads (parts ++ [name]) end_) :
    ∃ place, end_ = place ++ [name] ∧ t.Leads parts place ∧ name.utf8ByteSize ≤ maxName := by
  have hclean := h.clean
  have hfollow := h.follow
  rw [List.any_append, Bool.or_eq_false_iff] at hclean
  rw [follow_append, except_bind_eq_ok] at hfollow
  obtain ⟨place, hparts, hstep⟩ := hfollow
  have hdir := get?_of_follow_cons hstep
  rw [follow_name hname hdir] at hstep
  split_ifs at hstep with hsize
  exact ⟨place, (Except.ok.inj hstep).symm, ⟨hclean.1, hparts, hdir⟩, by omega⟩

/-- What leads to a directory is one. -/
theorem get?_of_follow {parts : List String} {place end_ : Place}
    (h : t.follow parts place = .ok end_) (hend : t.get? end_ = some .directory) :
    t.get? place = some .directory := by
  cases parts with
  | nil =>
    obtain rfl : place = end_ := Except.ok.inj h
    exact hend
  | cons part rest => exact get?_of_follow_cons h

/-- A made directory in a well-formed tree leaves it so. -/
theorem WellFormed.put (h : t.WellFormed) {p : Place} (hp : t.get? p = none)
    (hparent : t.get? p.dropLast = some .directory) : (t.put p .directory).WellFormed := by
  have hne := ne_nil_of_get?_eq_none hp
  intro q hq hsome
  refine (Grown.put hp).directory ?_
  rw [get?_put t hne] at hsome
  split_ifs at hsome with heq
  · rw [heq]
    exact hparent
  · exact h q hq hsome

end FileTree

namespace FileM

open FileTree

variable {t t' : FileTree}

theorem makeDirectoriesFrom_eq_ok {parts : List String} {place : Place}
    (h : outcome (makeDirectoriesFrom parts place) t = (.ok (), t'))
    (hplace : t.get? place = some .directory) :
    Grown t t' ∧ (t.WellFormed → t'.WellFormed) ∧
      ∃ end_, t'.follow parts place = .ok end_ ∧ t'.get? end_ = some .directory := by
  induction parts generalizing t place with
  | nil =>
    obtain rfl : t = t' := congrArg Prod.snd h
    exact ⟨Grown.refl t, id, place, rfl, hplace⟩
  | cons part rest ih =>
    rw [makeDirectoriesFrom, outcome_bind_eq_ok] at h
    obtain ⟨next, t₁, hnext, h⟩ := h
    obtain ⟨hfollow, rfl⟩ : t.follow [part] place = .ok next ∧ t = t₁ := by simpa using hnext
    rw [outcome_get_bind] at h
    have hcons : ∀ {u : FileTree} {end_ : Place}, Grown t u → u.follow rest next = .ok end_ →
        u.follow (part :: rest) place = .ok end_ := by
      intro u end_ hu hrest
      rw [← List.singleton_append, follow_append, follow_mono (fun p => hu.directory) hfollow]
      exact hrest
    rcases hfound : t.get? next with _ | data | _
    · rw [hfound] at h
      change outcome (modify (·.put next .directory) >>= fun _ => makeDirectoriesFrom rest next) t =
        _ at h
      rw [outcome_bind_of_ok (outcome_modify _ t)] at h
      obtain ⟨hgrown, hwell, end_, hend, hdir⟩ := ih h (by
        rw [get?_put t (ne_nil_of_get?_eq_none hfound), if_pos rfl])
      refine ⟨(Grown.put hfound).trans hgrown, fun ht => hwell (ht.put hfound ?_), end_,
        hcons ((Grown.put hfound).trans hgrown) hend, hdir⟩
      rcases dropLast_of_follow_one hfollow with heq | heq | heq
      · rw [heq, hplace] at hfound
        cases hfound
      · rw [heq] at hfound
        have hne : place ≠ [] := by
          rintro rfl
          cases hfound
        have hparent := ht place hne (by simp [hplace])
        rw [hfound] at hparent
        cases hparent
      · rw [heq, hplace]
    · rw [hfound] at h
      change outcome (if rest.isEmpty = true then throw _ else throw _) t = _ at h
      split_ifs at h <;> cases h
    · rw [hfound] at h
      obtain ⟨hgrown, hwell, end_, hend, hdir⟩ := ih h hfound
      exact ⟨hgrown, hwell, end_, hcons hgrown hend, hdir⟩

/-- Directories that are there are not made again; what is to be made lies below them. -/
theorem makeDirectoriesFrom_append {parts : List String} {place end_ : Place}
    (h : t.follow parts place = .ok end_) (hend : t.get? end_ = some .directory)
    (more : List String) :
    outcome (makeDirectoriesFrom (parts ++ more) place) t =
      outcome (makeDirectoriesFrom more end_) t := by
  induction parts generalizing place with
  | nil =>
    obtain rfl : place = end_ := Except.ok.inj h
    rfl
  | cons part rest ih =>
    rw [← List.singleton_append, follow_append, except_bind_eq_ok] at h
    obtain ⟨next, hnext, hrest⟩ := h
    have hdir := get?_of_follow hrest hend
    rw [List.cons_append, makeDirectoriesFrom, outcome_bind_of_ok (a := next) (t := t) (by
      rw [outcome_fileLook, hnext]), outcome_get_bind, hdir]
    exact ih hrest

/-- Directories that are there are not made again. -/
theorem makeDirectoriesFrom_of_follow {parts : List String} {place end_ : Place}
    (h : t.follow parts place = .ok end_) (hend : t.get? end_ = some .directory) :
    outcome (makeDirectoriesFrom parts place) t = (.ok (), t) := by
  have := makeDirectoriesFrom_append h hend []
  rwa [List.append_nil] at this

/-- Empty parts make no difference on the way to a directory. -/
theorem follow_filter_iff {parts : List String} {place end_ : Place}
    (hplace : t.get? place = some .directory) (hend : t.get? end_ = some .directory) :
    t.follow (parts.filter (· ≠ "")) place = .ok end_ ↔ t.follow parts place = .ok end_ := by
  induction parts generalizing place with
  | nil => rfl
  | cons part rest ih =>
    by_cases hpart : part = ""
    · have hskip : t.follow (part :: rest) place = t.follow rest place := by
        rw [follow, hplace]
        exact if_pos (.inl hpart)
      rw [List.filter_cons_of_neg (by simpa using hpart), hskip]
      exact ih hplace
    · rw [List.filter_cons_of_pos (by simpa using hpart), ← List.singleton_append,
        ← List.singleton_append (l := rest), follow_append, follow_append, except_bind_eq_ok,
        except_bind_eq_ok]
      refine exists_congr fun next => and_congr_right fun hnext => ?_
      by_cases hdir : t.get? next = some .directory
      · exact ih hdir
      · -- nothing can be followed from here, so nothing is left to follow
        exact ⟨fun h => absurd (get?_of_follow h hend) hdir,
          fun h => absurd (get?_of_follow h hend) hdir⟩

/-- **A directory that was made is there**, and nothing but directories is new. -/
theorem makeDirectories_eq_ok {p : Path} (h : outcome (makeDirectories p) t = (.ok (), t')) :
    Grown t t' ∧ (t.WellFormed → t'.WellFormed) ∧ ∃ place, t'.Leads p.parts place := by
  rw [makeDirectories] at h
  by_cases hclean : p.parts.any (·.contains '\x00') = true
  · rw [if_pos hclean] at h
    cases h
  · rw [if_neg hclean] at h
    obtain ⟨hgrown, hwell, place, hfollow, hdir⟩ := makeDirectoriesFrom_eq_ok h (get?_nil t)
    exact ⟨hgrown, hwell, place, Bool.eq_false_iff.mpr hclean,
      (follow_filter_iff (get?_nil t') hdir).mp hfollow, hdir⟩

/-- Directories that are there are not made again. -/
theorem makeDirectories_of_leads {p : Path} {place : Place} (h : t.Leads p.parts place) :
    outcome (makeDirectories p) t = (.ok (), t) := by
  rw [makeDirectories, h.clean]
  exact makeDirectoriesFrom_of_follow
    ((follow_filter_iff (get?_nil t) h.directory).mpr h.follow) h.directory

/-- A directory that is missing is made below one that is there. -/
theorem makeDirectories_child {p : Path} {parts : List String} {place : Place} {name : String}
    (h : t.Leads parts place) (hname : PlainName name) (hsize : name.utf8ByteSize ≤ maxName)
    (hp : p.parts = parts ++ [name]) (hnone : t.get? (place ++ [name]) = none) :
    outcome (makeDirectories p) t = (.ok (), t.put (place ++ [name]) .directory) := by
  have hclean : p.parts.any (·.contains '\x00') = false := by
    rw [hp, List.any_append, h.clean]
    simp [hname.noNul]
  have hlast : [name].filter (· ≠ "") = [name] :=
    List.filter_cons_of_pos (by simpa using hname.ne_empty)
  rw [makeDirectories, hclean, hp, List.filter_append, hlast]
  show outcome (makeDirectoriesFrom (parts.filter (· ≠ "") ++ [name]) []) t = _
  rw [makeDirectoriesFrom_append ((follow_filter_iff (get?_nil t) h.directory).mpr h.follow)
      h.directory, makeDirectoriesFrom, outcome_bind_of_ok (a := place ++ [name]) (t := t) (by
      rw [outcome_fileLook, follow_name hname h.directory, if_neg (Nat.not_lt.mpr hsize)]),
    outcome_get_bind, hnone]
  exact outcome_bind_of_ok (outcome_modify _ t) _

end FileM

namespace FileTree

/-- A slash at the end makes no difference to where a directory is. -/
theorem leads_below_iff {t : FileTree} {p : Path} {place : Place} :
    t.Leads p.below place ↔ t.Leads p.parts place := by
  have key : ∀ {xs ys : List String}, xs.any (·.contains '\x00') = ys.any (·.contains '\x00') →
      xs.filter (· ≠ "") = ys.filter (· ≠ "") → t.Leads xs place → t.Leads ys place := by
    intro xs ys hclean hfilter h
    refine ⟨hclean ▸ h.clean, ?_, h.directory⟩
    rw [← FileM.follow_filter_iff (get?_nil t) h.directory, ← hfilter]
    exact (FileM.follow_filter_iff (get?_nil t) h.directory).mpr h.follow
  have hsame : p.below.any (·.contains '\x00') = p.parts.any (·.contains '\x00') ∧
      p.below.filter (· ≠ "") = p.parts.filter (· ≠ "") := by
    rw [Path.below]
    split_ifs with hempty hlast
    · obtain ⟨hall, -⟩ : p.parts.all (·.isEmpty) = true ∧ p.parts.length ≤ 1 := by
        simpa [Path.isEmpty] using hempty
      have hparts : ∀ part ∈ p.parts, part = "" := by
        intro part hpart
        simpa using List.all_eq_true.mp hall part hpart
      constructor
      · refine (List.any_eq_false.mpr fun part hpart => ?_).symm
        rw [hparts part hpart]
        simp
      · refine (List.filter_eq_nil_iff.mpr fun part hpart => ?_).symm
        simpa using hparts part hpart
    · obtain ⟨pre, hpre⟩ := List.getLast?_eq_some_iff.mp hlast
      rw [hpre, List.dropLast_concat]
      simp
    · exact ⟨rfl, rfl⟩
  exact ⟨key hsame.1 hsame.2, key hsame.1.symm hsame.2.symm⟩

end FileTree

/-! ## Single files -/

namespace FileTree

/-- What removing a file leaves, which need not be there. -/
def removed (t : FileTree) (place : Place) : FileTree :=
  match t.get? place with
  | some (.file _) => t.erase place
  | _ => t

/-- What replacing the contents of a file leaves. -/
def written (t : FileTree) (place : Place) (data : Bytes) : FileTree :=
  (t.put place (.file ByteArray.empty)).put place (.file (ByteArray.empty ++ data))

theorem get?_removed (t : FileTree) {p : Place} (hp : t.get? p ≠ some .directory) (q : Place) :
    (t.removed p).get? q = if q = p then none else t.get? q := by
  have hne : p ≠ [] := fun h => hp (h ▸ rfl)
  rw [removed]
  rcases hfound : t.get? p with _ | _ | _
  · show t.get? q = _
    split_ifs with hq
    · rw [hq, hfound]
    · rfl
  · exact get?_erase t hne q
  · exact absurd hfound hp

theorem get?_written (t : FileTree) {p : Place} (hp : p ≠ []) (data : Bytes) (q : Place) :
    (t.written p data).get? q = if q = p then some (.file data) else t.get? q := by
  rw [written, get?_put _ hp, get?_put _ hp, ByteArray.empty_append]
  split_ifs <;> rfl

/-- Where there was no directory, a change of a file makes or loses none. -/
theorem directory_iff_of_get? {t t' : FileTree} {p : Place} {node : Option Node}
    (hget : ∀ q, t'.get? q = if q = p then node else t.get? q)
    (hp : t.get? p ≠ some .directory) (hnode : node ≠ some .directory) (q : Place) :
    t'.get? q = some .directory ↔ t.get? q = some .directory := by
  rw [hget]
  split_ifs with hq
  · rw [hq]
    exact ⟨fun h => absurd h hnode, fun h => absurd h hp⟩
  · rfl

/-- The top is a directory. -/
theorem ne_nil_of_not_directory {t : FileTree} {place : Place}
    (hplain : t.get? place ≠ some .directory) : place ≠ [] := by
  rintro rfl
  exact hplain (get?_nil t)

/-- A file takes the place of no directory. -/
theorem directory_put {t : FileTree} {place : Place} (hplain : t.get? place ≠ some .directory)
    (data : Bytes) (q : Place) :
    (t.put place (.file data)).get? q = some .directory ↔ t.get? q = some .directory :=
  directory_iff_of_get? (get?_put t (ne_nil_of_not_directory hplain) _) hplain (by simp) q

/-- A path that leads somewhere leads there in every tree with more directories. -/
theorem locate_mono {t t' : FileTree} {p : Path} {place : Place}
    (hmore : ∀ q, t.get? q = some .directory → t'.get? q = some .directory)
    (h : t.locate p = .ok place) : t'.locate p = .ok place := by
  rw [locate] at h ⊢
  split_ifs at h ⊢
  exact follow_mono hmore h

theorem node_of_locate {t : FileTree} {p : Path} {place : Place} (h : t.locate p = .ok place)
    {node : Node} (hnode : t.get? place = some node) : t.node p = .ok node := by
  rw [FileTree.node, h]
  simp only [bind, Except.bind, hnode, pure, Except.pure]

end FileTree

namespace FileM

open FileTree

variable {t t' : FileTree} {parts : List String} {place : Place} {name : String} {p : Path}

/-- Whether the absence of a file is an error makes no difference to what is done. -/
theorem outcome_tolerateAbsence_snd (x : FileM OsError Unit) (t : FileTree) :
    (outcome (removeIfPresent.tolerateAbsence x) t).2 = (outcome x t).2 := by
  unfold removeIfPresent.tolerateAbsence
  rw [outcome_mk, show x.run t = outcome x t from rfl]
  rcases outcome x t with ⟨e | _, t₁⟩
  · cases e with
    | errno e =>
      simp only
      split_ifs <;> rfl
    | _ => rfl
  · rfl

/-- A removal for which nothing needs to be there succeeds also when nothing was. -/
theorem tolerateAbsence_eq_ok {x : FileM OsError Unit} :
    outcome (removeIfPresent.tolerateAbsence x) t = (.ok (), t') ↔
      outcome x t = (.ok (), t') ∨ outcome x t = (.error (.errno Errno.noEntry), t') := by
  unfold removeIfPresent.tolerateAbsence
  rw [outcome_mk, show x.run t = outcome x t from rfl]
  rcases outcome x t with ⟨e | _, t₁⟩
  · cases e with
    | errno e =>
      by_cases he : e = Errno.noEntry <;> simp [he]
    | _ => simp
  · simp

/-- **Removing a file**, which need not be there, fails only on a directory and on names that
cannot be looked up. -/
theorem removeIfPresent_eq_ok (h : t.Leads parts place) (hname : PlainName name)
    (hp : p.parts = parts ++ [name]) :
    outcome (removeIfPresent p) t = (.ok (), t') ↔
      name.utf8ByteSize ≤ maxName ∧ t.get? (place ++ [name]) ≠ some .directory ∧
        t' = t.removed (place ++ [name]) := by
  rw [removeIfPresent, tolerateAbsence_eq_ok, remove, outcome_change, h.locate hname hp]
  by_cases hsize : maxName < name.utf8ByteSize
  · rw [if_pos hsize]
    refine ⟨fun h => ?_, fun h => absurd h.1 (by omega)⟩
    rcases h with h | h <;> cases congrArg Prod.fst h
  · rw [if_neg hsize, removed]
    have hle : name.utf8ByteSize ≤ maxName := by omega
    rcases hfound : t.get? (place ++ [name]) with _ | data | _ <;>
      simp [hfound, hle, bind, Except.bind, throw, throwThe, MonadExceptOf.throw, pure, Except.pure,
        Errno.isDirectory, Errno.noEntry, eq_comm]

/-- A removal that fails removes nothing. -/
theorem removeIfPresent_eq_error {e : OsError} (h : outcome (removeIfPresent p) t = (.error e, t')) :
    t' = t := by
  have htree : t' = (outcome (remove p) t).2 := by
    rw [← outcome_tolerateAbsence_snd, ← removeIfPresent, h]
  rw [htree]
  rcases hrun : outcome (remove p) t with ⟨e' | ⟨⟩, t₁⟩
  · rw [remove, outcome_change] at hrun
    split at hrun
    · cases congrArg Prod.fst hrun
    · exact (congrArg Prod.snd hrun).symm
  · rw [removeIfPresent, tolerateAbsence_eq_ok.mpr (.inl hrun)] at h
    cases congrArg Prod.fst h

theorem outcome_perform_cons (step : FileEffect) (steps : List FileEffect) (t : FileTree) :
    outcome (perform (step :: steps)) t =
      match t.after step with
      | .ok t' => outcome (perform steps) t'
      | .error e => (.error e, t) := by
  show outcome (change (·.after step) >>= fun _ => perform steps) t = _
  rw [outcome_bind, outcome_change]
  rcases t.after step with _ | _ <;> rfl

theorem outcome_perform_cons_of_ok {step : FileEffect} (h : t.after step = .ok t')
    (steps : List FileEffect) : outcome (perform (step :: steps)) t = outcome (perform steps) t' := by
  rw [outcome_perform_cons, h]

/-- A file is created where it is not a directory. -/
theorem after_create (h : t.Leads parts place) (hname : PlainName name)
    (hp : p.parts = parts ++ [name]) :
    t.after (.create p) = .ok t' ↔
      name.utf8ByteSize ≤ maxName ∧ t.get? (place ++ [name]) ≠ some .directory ∧
        t' = t.put (place ++ [name]) (.file ByteArray.empty) := by
  rw [FileTree.after, h.locate hname hp]
  by_cases hsize : maxName < name.utf8ByteSize
  · rw [if_pos hsize]
    refine ⟨fun h => ?_, fun h => absurd h.1 (by omega)⟩
    cases h
  · rw [if_neg hsize]
    have hle : name.utf8ByteSize ≤ maxName := by omega
    rcases hfound : t.get? (place ++ [name]) with _ | data | _ <;>
      simp [hfound, hle, bind, Except.bind, throw, throwThe, MonadExceptOf.throw, pure, Except.pure,
        eq_comm]

theorem after_append_of_locate (h : t.locate p = .ok place) {old : Bytes}
    (hold : t.get? place = some (.file old)) (data : Bytes) :
    t.after (.append p data) = .ok (t.put place (.file (old ++ data))) := by
  rw [FileTree.after, h]
  simp only [bind, Except.bind, hold, pure, Except.pure]

theorem after_append (h : t.Leads parts place) (hname : PlainName name)
    (hp : p.parts = parts ++ [name]) (hsize : name.utf8ByteSize ≤ maxName) {old : Bytes}
    (hold : t.get? (place ++ [name]) = some (.file old)) (data : Bytes) :
    t.after (.append p data) = .ok (t.put (place ++ [name]) (.file (old ++ data))) :=
  after_append_of_locate (h.locate_of_le hname hp hsize) hold data

theorem after_sync {node : Node} (h : t.node p = .ok node) : t.after (.sync p) = .ok t := by
  rw [FileTree.after, h]
  rfl

theorem node_of_get? (h : t.Leads parts place) (hname : PlainName name)
    (hp : p.parts = parts ++ [name]) (hsize : name.utf8ByteSize ≤ maxName) {node : Node}
    (hnode : t.get? (place ++ [name]) = some node) : t.node p = .ok node :=
  node_of_locate (h.locate_of_le hname hp hsize) hnode

/-- Putting a file where there is no directory leads everywhere as before. -/
theorem leads_put (h : t.Leads parts place) {q : Place} (hq : t.get? q ≠ some .directory)
    (data : Bytes) : (t.put q (.file data)).Leads parts place :=
  h.mono fun r => (directory_put hq data r).mpr

section Fill

variable (hp : t.locate p = .ok place) (hplain : t.get? place ≠ some .directory)
include hp hplain

theorem after_create_of_locate :
    t.after (.create p) = .ok (t.put place (.file ByteArray.empty)) := by
  rw [FileTree.after, hp]
  rcases hfound : t.get? place with _ | _ | _
  · simp only [bind, Except.bind, hfound, pure, Except.pure]
  · simp only [bind, Except.bind, hfound, pure, Except.pure]
  · exact absurd hfound hplain

/-- What is appended to a file that was just created is all that is in it. -/
theorem after_append_created (data : Bytes) :
    (t.put place (.file ByteArray.empty)).after (.append p data) = .ok (t.written place data) := by
  have hcreated := get?_put t (ne_nil_of_not_directory hplain) (.file ByteArray.empty) place
  rw [if_pos rfl] at hcreated
  exact after_append_of_locate (locate_mono (fun q => (directory_put hplain _ q).mpr) hp) hcreated
    data

theorem after_sync_written (data : Bytes) :
    (t.written place data).after (.sync p) = .ok (t.written place data) := by
  have hget := get?_written t (ne_nil_of_not_directory hplain) data
  have hlocate := locate_mono (fun q => (directory_iff_of_get? hget hplain (by simp) q).mpr) hp
  exact after_sync (node_of_locate hlocate ((hget place).trans (if_pos rfl)))

/-- A file is created and filled where its path leads. -/
theorem outcome_fill (data : Bytes) (steps : List FileEffect) :
    outcome (perform (.create p :: .append p data :: .sync p :: steps)) t =
      outcome (perform steps) (t.written place data) := by
  rw [outcome_perform_cons_of_ok (after_create_of_locate hp hplain),
    outcome_perform_cons_of_ok (after_append_created hp hplain data),
    outcome_perform_cons_of_ok (after_sync_written hp hplain data)]

/-- A file can be replaced where its path leads, unless that is a directory. -/
theorem overwrite_of_locate (data : Bytes) :
    outcome (overwrite p data) t = (.ok (), t.written place data) :=
  outcome_fill hp hplain data []

end Fill

/-- A file is created and filled. -/
theorem outcome_perform_fill (h : t.Leads parts place) (hname : PlainName name)
    (hp : p.parts = parts ++ [name]) (hsize : name.utf8ByteSize ≤ maxName)
    (hdir : t.get? (place ++ [name]) ≠ some .directory) (data : Bytes) (steps : List FileEffect) :
    outcome (perform (.create p :: .append p data :: .sync p :: steps)) t =
      outcome (perform steps) (t.written (place ++ [name]) data) :=
  outcome_fill (h.locate_of_le hname hp hsize) hdir data steps

/-- How replacing a file's contents ends: what cannot be done is not begun. -/
theorem outcome_overwrite (h : t.Leads parts place) (hname : PlainName name)
    (hp : p.parts = parts ++ [name]) (data : Bytes) :
    (name.utf8ByteSize ≤ maxName ∧ t.get? (place ++ [name]) ≠ some .directory ∧
      outcome (overwrite p data) t = (.ok (), t.written (place ++ [name]) data)) ∨
    (¬ (name.utf8ByteSize ≤ maxName ∧ t.get? (place ++ [name]) ≠ some .directory) ∧
      ∃ e, outcome (overwrite p data) t = (.error e, t)) := by
  rw [overwrite, overwriteSteps]
  by_cases hfits : name.utf8ByteSize ≤ maxName ∧ t.get? (place ++ [name]) ≠ some .directory
  · rw [outcome_perform_fill h hname hp hfits.1 hfits.2]
    exact .inl ⟨hfits.1, hfits.2, rfl⟩
  · refine .inr ⟨hfits, ?_⟩
    rw [outcome_perform_cons]
    rcases hcreate : t.after (.create p) with e | t'
    · exact ⟨e, rfl⟩
    · have := (after_create h hname hp).mp hcreate
      exact absurd ⟨this.1, this.2.1⟩ hfits

/-- **Replacing a file's contents** fails only on a directory and on names that cannot be looked
up. -/
theorem overwrite_eq_ok (h : t.Leads parts place) (hname : PlainName name)
    (hp : p.parts = parts ++ [name]) (data : Bytes) :
    outcome (overwrite p data) t = (.ok (), t') ↔
      name.utf8ByteSize ≤ maxName ∧ t.get? (place ++ [name]) ≠ some .directory ∧
        t' = t.written (place ++ [name]) data := by
  rcases outcome_overwrite h hname hp data with ⟨hsize, hdir, hrun⟩ | ⟨hnot, e, hrun⟩
  · rw [hrun]
    simp [hsize, hdir, eq_comm]
  · rw [hrun]
    exact ⟨fun hok => (nomatch congrArg Prod.fst hok), fun h => absurd ⟨h.1, h.2.1⟩ hnot⟩

end FileM

end BlockUpdate
