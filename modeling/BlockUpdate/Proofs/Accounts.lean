import BlockUpdate.Proofs.History
import Mathlib.Algebra.Order.BigOperators.Group.List
import Mathlib.Algebra.Order.Group.Nat

/-!
# What a session counts of its stash

A session counts its entries against the limits when it stores them, and a session that resumes
counts what it finds. The first count is never less than the second.

- `Stash.held_removed`, `Stash.held_stored`: how the entries of a stash change.
- `Machine.Accounts`: every entry is counted, and every entry is known.
- **`Command.run_accounts`**: a command preserves it.
- **`History.accounts`**: it holds in every machine of a history.
-/

namespace BlockUpdate

namespace Stash

/-! ## The entries of a stash -/

variable {s : Stash} {t t' : FileTree} {place : Place} {id : String} {data : Bytes}

theorem entryOf?_eq_some {q : Place} {node : Node} {entry : String × Bytes} :
    entryOf? place (q, node) = some entry ↔
      q = place ++ [entry.1] ∧ node = .file entry.2 ∧ validId entry.1 = true := by
  obtain ⟨name, data⟩ := entry
  cases node with
  | directory => simp [entryOf?]
  | file found =>
    rcases List.eq_nil_or_concat q with rfl | ⟨front, last, rfl⟩
    · simp [entryOf?]
    · simp only [entryOf?, List.concat_eq_append, List.getLast?_append, List.getLast?_singleton,
        Option.some_or, List.dropLast_concat]
      split_ifs with h
      · obtain ⟨rfl, hvalid⟩ := h
        simp only [Option.some.injEq, Prod.mk.injEq, List.append_cancel_left_eq, List.cons.injEq,
          and_true, Node.file.injEq]
        exact ⟨fun h => ⟨h.1, h.2, h.1 ▸ hvalid⟩, fun h => ⟨h.1, h.2.1⟩⟩
      · constructor
        · intro hnone
          cases hnone
        · rintro ⟨hq, -, hvalid⟩
          obtain ⟨rfl, hname⟩ := List.append_inj' hq rfl
          exact absurd ⟨rfl, (List.cons.inj hname).1 ▸ hvalid⟩ h

theorem mem_held {name : String} {data : Bytes} :
    (name, data) ∈ held t place ↔
      (place ++ [name], .file data) ∈ t.nodes ∧ validId name = true := by
  rw [held, List.mem_filterMap]
  constructor
  · rintro ⟨⟨q, node⟩, hmem, hentry⟩
    obtain ⟨rfl, rfl, hvalid⟩ := entryOf?_eq_some.mp hentry
    exact ⟨hmem, hvalid⟩
  · rintro ⟨hmem, hvalid⟩
    exact ⟨_, hmem, entryOf?_eq_some.mpr ⟨rfl, rfl, hvalid⟩⟩

/-- Without the node of a name there is no entry of the name. -/
theorem held_erase (t : FileTree) (place : Place) (id : String) :
    held (t.erase (place ++ [id])) place = (held t place).filter (·.1 ≠ id) := by
  rw [held, held, FileTree.erase, List.filter_filterMap, List.filterMap_filter]
  refine List.filterMap_congr fun entry _ => ?_
  obtain ⟨q, node⟩ := entry
  rcases hentry : entryOf? place (q, node) with _ | entry
  · simp
  · obtain ⟨rfl, -, -⟩ := entryOf?_eq_some.mp hentry
    simp [Option.filter]

/-- Nodes elsewhere are no entries. -/
theorem held_put_sublist (t : FileTree) {q : Place} (hq : ∀ name, q ≠ place ++ [name])
    (node : Node) : (held (t.put q node) place).Sublist (held t place) := by
  rw [held, FileTree.put, List.filterMap_cons]
  rcases hentry : entryOf? place (q, node) with _ | entry
  · exact List.Sublist.filterMap _ List.filter_sublist
  · exact absurd (entryOf?_eq_some.mp hentry).1 (hq _)

theorem held_put_entry (t : FileTree) (hid : validId id = true) (data : Bytes) :
    held (t.put (place ++ [id]) (.file data)) place =
      (id, data) :: (held t place).filter (·.1 ≠ id) := by
  have hentry : entryOf? place (place ++ [id], .file data) = some (id, data) :=
    entryOf?_eq_some.mpr ⟨rfl, rfl, hid⟩
  rw [← held_erase, held, FileTree.put, List.filterMap_cons, hentry]
  rfl

/-- A file that is in preparation is no entry. -/
theorem held_put_temporary (t : FileTree) (place : Place) (id : String) (node : Node) :
    held (t.put (place ++ [temporaryName id]) node) place =
      (held t place).filter (·.1 ≠ temporaryName id) := by
  rw [← held_erase, held, FileTree.put, List.filterMap_cons]
  rcases hentry : entryOf? place (place ++ [temporaryName id], node) with _ | ⟨name, data⟩
  · rfl
  · obtain ⟨hname, -, hvalid⟩ := entryOf?_eq_some.mp hentry
    simp only [List.append_cancel_left_eq, List.cons.injEq, and_true] at hname
    exact absurd hname.symm (ne_temporaryName hvalid id)

/-- An entry that is stored comes in the place of any other of its name. -/
theorem held_stored (t : FileTree) (place : Place) (hid : validId id = true) (data : Bytes) :
    ∃ rest, held (stored t place id data) place = (id, data) :: rest ∧
      rest.Sublist (held t place) ∧ ∀ entry ∈ rest, entry.1 ≠ id ∧ entry.1 ≠ temporaryName id := by
  refine ⟨_, held_put_entry _ hid data, ?_, ?_⟩
  · rw [held_erase, FileTree.written, held_put_temporary, held_put_temporary]
    exact ((List.filter_sublist.trans List.filter_sublist).trans List.filter_sublist).trans
      List.filter_sublist
  · intro entry hentry
    rw [held_erase] at hentry
    simp only [List.mem_filter, decide_eq_true_eq] at hentry
    exact ⟨hentry.2, hentry.1.2⟩

/-- An entry that is removed was held. -/
theorem held_removed (h : t.get? (place ++ [id]) = some (.file data)) (hid : validId id = true) :
    held (t.removed (place ++ [id])) place = (held t place).filter (·.1 ≠ id) ∧
      (id, data) ∈ held t place := by
  refine ⟨?_, mem_held.mpr ⟨FileTree.mem_of_get? (by simp) h, hid⟩⟩
  rw [FileTree.removed, h]
  exact held_erase t place id

theorem entryBlocks_congr (h : s.Sited t place) (h' : s.Sited t' place)
    (hget : t'.get? (place ++ [id]) = t.get? (place ++ [id])) :
    s.entryBlocks t' id = s.entryBlocks t id := by
  rw [entryBlocks, entryBlocks, entrySize?_congr h h' hget]

/-- Entries are counted by where they are. -/
theorem heldBlocks_of_base {s' : Stash} (h : s'.base = s.base) (t : FileTree) (place : Place) :
    s'.heldBlocks t place = s.heldBlocks t place := by
  simp only [heldBlocks, entryBlocks, entrySize?, entryPath, h]

/-- What some of the entries are counted as is no more than what all are. -/
theorem sum_entryBlocks_le {rest : List (String × Bytes)} (hrest : rest.Sublist (held t place))
    (hsame : ∀ entry ∈ rest, s.entryBlocks t' entry.1 = s.entryBlocks t entry.1) :
    (rest.map fun entry => s.entryBlocks t' entry.1).sum ≤ s.heldBlocks t place := by
  rw [List.map_congr_left hsame]
  exact (hrest.map _).sum_le_sum fun _ _ => Nat.zero_le _

/-- Without an entry the others are counted as so much less. -/
theorem sum_filter_add_le {entries : List (String × Bytes)} (h : (id, data) ∈ entries)
    (f : String → Nat) :
    (entries.filter (·.1 ≠ id)).length + 1 ≤ entries.length ∧
      ((entries.filter (·.1 ≠ id)).map fun entry => f entry.1).sum + f id ≤
        (entries.map fun entry => f entry.1).sum := by
  have hperm := List.filter_append_perm (fun e : String × Bytes => decide (e.1 ≠ id)) entries
  have hout : (id, data) ∈ entries.filter fun e => !decide (e.1 ≠ id) :=
    List.mem_filter.mpr ⟨h, by simp⟩
  have hlength := hperm.length_eq
  have hsum := (hperm.map fun e => f e.1).sum_nat
  have hpos := List.length_pos_of_mem hout
  have hle := List.single_le_sum (fun x _ => Nat.zero_le x) (f id)
    (List.mem_map_of_mem (f := fun e : String × Bytes => f e.1) hout)
  rw [List.length_append] at hlength
  rw [List.map_append, List.sum_append] at hsum
  constructor <;> omega

end Stash

namespace Machine

/-! ## Accounts -/

variable {known : String → Bytes → Prop} {place : Place} {m m' : Machine} {id : String}

/-- Every entry of the stash is counted, and every entry is known. -/
structure Accounts (known : String → Bytes → Prop) (place : Place) (m : Machine) : Prop where
  known : ∀ name data, m.files.get? (place ++ [name]) = some (.file data) → known name data
  entries : (Stash.held m.files place).length ≤ m.stashedEntries
  blocks : m.stash.heldBlocks m.files place ≤ m.stashedBlocks

namespace Accounts

/-- Nothing but the stash matters. -/
theorem congr (h : m.Accounts known place) (hfiles : m'.files = m.files)
    (hstash : m'.stash = m.stash) (hentries : m'.stashedEntries = m.stashedEntries)
    (hblocks : m'.stashedBlocks = m.stashedBlocks) : m'.Accounts known place := by
  refine ⟨?_, ?_, ?_⟩
  · rw [hfiles]
    exact h.known
  · rw [hfiles, hentries]
    exact h.entries
  · rw [hfiles, hstash, hblocks]
    exact h.blocks

/-- An entry that is stored is counted. -/
theorem keeping (h : m.Accounts known place) (hsited : m.stash.Sited m.files place)
    (hstorable : Stash.Storable m.files place id) {blocks : Nat} {data : Bytes}
    (hsize : data.size = blocks * blockSize) (hknown : known id data) :
    (m.keeping place id blocks data).Accounts known place := by
  have hsited' : m.stash.Sited (Stash.stored m.files place id data) place :=
    (within_keeping (fun _ => False) hstorable blocks data).sited hsited
  obtain ⟨rest, hheld, hrest, hnames⟩ := Stash.held_stored m.files place hstorable.valid data
  refine ⟨fun name found hfound => ?_, ?_, ?_⟩
  · change (Stash.stored m.files place id data).get? _ = _ at hfound
    rw [Stash.get?_stored] at hfound
    split_ifs at hfound with hname
    · obtain rfl : name = id := by simpa using hname
      cases hfound
      exact hknown
    · exact h.known name found hfound
  · show (Stash.held (Stash.stored m.files place id data) place).length ≤ m.stashedEntries + 1
    rw [hheld, List.length_cons]
    exact Nat.succ_le_succ (Nat.le_trans hrest.length_le h.entries)
  · show Stash.heldBlocks _ (Stash.stored m.files place id data) place ≤ m.stashedBlocks + blocks
    rw [Stash.heldBlocks, hheld, List.map_cons, List.sum_cons, Nat.add_comm]
    have hown : m.stash.entryBlocks (Stash.stored m.files place id data) id = blocks := by
      have hfound : m.stash.entrySize? (Stash.stored m.files place id data) id = some data.size :=
        (Stash.entrySize?_eq_some hsited').mpr ⟨hstorable.isEntry, .inl ⟨data, by
          rw [Stash.get?_stored, if_pos rfl], rfl⟩⟩
      rw [Stash.entryBlocks, hfound, Option.getD_some, hsize]
      exact Nat.mul_div_cancel _ (by decide)
    refine Nat.add_le_add (Nat.le_trans (Stash.sum_entryBlocks_le hrest fun entry hentry => ?_)
      h.blocks) (Nat.le_of_eq hown)
    obtain ⟨hid, htemporary⟩ := hnames entry hentry
    exact Stash.entryBlocks_congr hsited hsited' (by
      rw [Stash.get?_stored, if_neg (by simpa using hid), if_neg (by simpa using htemporary)])

/-- An entry that is removed is counted no more. -/
theorem drops (h : m.Accounts known place) (hsited : m.stash.Sited m.files place)
    (hm : m.Drops place id m') : m'.Accounts known place := by
  have hwithin : Within (Stash.Below place) (fun _ => False) m m' := hm.within
  have hsited' := hwithin.sited hsited
  rcases hm with ⟨-, rfl⟩ | ⟨size, hsize, hdir, rfl⟩
  · exact h
  obtain ⟨hid, ⟨data, hdata, hlength⟩ | ⟨hfound, -⟩⟩ := (Stash.entrySize?_eq_some hsited).mp hsize
  case inr => exact absurd hfound hdir
  have hget : ∀ name, (m.files.removed (place ++ [id])).get? (place ++ [name]) =
      if name = id then none else m.files.get? (place ++ [name]) := by
    intro name
    rw [FileTree.get?_removed m.files hdir]
    simp
  obtain ⟨hheld, hmem⟩ := Stash.held_removed hdata hid.1
  obtain ⟨hentries, hblocks⟩ := Stash.sum_filter_add_le hmem (m.stash.entryBlocks m.files)
  refine ⟨fun name found hfound => ?_, ?_, ?_⟩
  · change (m.files.removed _).get? _ = _ at hfound
    rw [hget] at hfound
    split_ifs at hfound
    exact h.known name found hfound
  · show (Stash.held (m.files.removed _) place).length ≤ m.stashedEntries - 1
    rw [hheld]
    have := h.entries
    omega
  · show m.stash.heldBlocks (m.files.removed _) place ≤ m.stashedBlocks - size / blockSize
    have hown : m.stash.entryBlocks m.files id = size / blockSize := by
      rw [Stash.entryBlocks, hsize, Option.getD_some]
    have hsame : ∀ entry ∈ (Stash.held m.files place).filter (·.1 ≠ id),
        m.stash.entryBlocks (m.files.removed (place ++ [id])) entry.1 =
          m.stash.entryBlocks m.files entry.1 := by
      intro entry hentry
      have hne := (List.mem_filter.mp hentry).2
      exact Stash.entryBlocks_congr hsited hsited' (by rw [hget, if_neg (by simpa using hne)])
    rw [Stash.heldBlocks, hheld, List.map_congr_left hsame]
    have hall := h.blocks
    rw [Stash.heldBlocks] at hall
    omega

end Accounts

end Machine

namespace Command

variable {P : Primitives} {c : Command} {m m' : Machine} {place : Place}
  {known : String → Bytes → Prop}

theorem applyRecipe_accounts {r : Recipe} {s : Source} (hr : r.target.Sound)
    (hsize : s.data.size = s.blocks * blockSize) (hsited : m.stash.Sited m.files place)
    (h : m.Accounts known place) (hknown : Keeps r s m → known r.sourceHash s.data)
    (hrun : outcome (applyRecipe P c r s) m = (.ok (), m')) : m'.Accounts known place := by
  obtain ⟨m₁, m₂, hkeep, hwrites, -, hdrop⟩ := applyRecipe_eq_ok.mp hrun
  have hkept : m₁.Accounts known place ∧ m₁.stash.Sited m₁.files place := by
    rcases (keepSource_eq_ok hsited).mp hkeep with ⟨hkeeps, -, hstorable, rfl⟩ | ⟨-, rfl⟩
    · exact ⟨h.keeping hsited hstorable hsize (hknown hkeeps),
        (Machine.within_keeping c.Targets hstorable _ _).sited hsited⟩
    · exact ⟨h, hsited⟩
  obtain ⟨ws, -, rfl, -⟩ := writeTarget_eq_ok hr hwrites
  exact (hkept.1.congr rfl rfl rfl rfl : (m₁.wrote ws).Accounts known place).drops hkept.2
    ((dropSource_eq_ok (m := m₁.wrote ws) hkept.2).mp hdrop)

/-- **A command keeps the accounts**, if what it stores is known. -/
theorem run_accounts (hwrite : m.canWrite = true) (hsited : m.stash.Sited m.files place)
    (h : m.Accounts known place) (hknown : ∀ id data, c.Stashes P m id data → known id data)
    (hrun : outcome (c.run P) m = (.ok (), m')) : m'.Accounts known place := by
  rw [run] at hrun
  cases hverb : c.verb <;> rw [hverb] at hrun <;> simp only at hrun
  case abort | other =>
    obtain rfl := congrArg Prod.snd hrun
    exact h
  case new =>
    obtain ⟨set, feed, feed', ws, -, -, -, rfl, -⟩ := writeNewData_eq_ok hwrite hrun
    exact h.congr rfl rfl rfl rfl
  case zero | erase =>
    obtain ⟨set, ws, -, -, rfl, -⟩ := clear_eq_ok hwrite hrun
    exact h.congr rfl rfl rfl rfl
  case move | copy | bsdiff | imgdiff =>
    have hmakes : c.makesTarget := by simp [makesTarget, hverb]
    obtain ⟨r, -, -, rfl⟩ | ⟨r, s, m₁, hneeds, hs, happly, rfl⟩ := (makeTarget_eq_ok hwrite).mp hrun
    · exact h
    · have hsize := (source_verified hs hsited).2
      refine (applyRecipe_accounts (sound_of_blockSet (blockSet_of_recipe hneeds.1)) hsize hsited h
        (fun hkeeps => ?_) happly).congr rfl rfl rfl rfl
      exact hknown _ _ (.source hmakes hneeds hs hkeeps)
  case stash =>
    obtain ⟨id, set, hid, hset, ⟨-, rfl⟩ | ⟨hsize, data, hread, hverify, -, hstorable, rfl⟩⟩ :=
      (stashBlocks_eq_ok hwrite hsited).mp hrun
    · exact h
    · exact h.keeping hsited hstorable (BlockSet.size_of_read? (sound_of_blockSet hset) hread)
        (hknown id data (.blocks hverb hid hset hsize hread hverify))
  case free =>
    obtain ⟨id, -, ⟨-, rfl⟩ | ⟨-, -, hdrops⟩⟩ := (freeEntry_eq_ok hsited).mp hrun
    · exact h
    · exact h.drops hsited hdrops

end Command

namespace Session

open SessionOptions

variable {P : Primitives} {o : SessionOptions} {place : Place} {commands : List String}
  {known : String → Bytes → Prop} {count k : Nat} {machine : Nat → Machine}

/-- A marker is not counted. -/
theorem accounts_marked (hplain : o.PlainPartition) (c : Command) {m : Machine}
    (hwork : o.Workspace m.files place) (hbase : m.stash.base = o.stashDir)
    (h : m.Accounts known (o.stashAt place)) :
    (o.marked place c m).Accounts known (o.stashAt place) := by
  have hsited := hwork.sited hplain hbase
  have hsited' := (work_marked (c := c) hwork).sited hplain hbase
  have hsub : (Stash.held (o.marked place c m).files (o.stashAt place)).Sublist
      (Stash.held m.files (o.stashAt place)) := by
    have hne := fun name h => o.stashAt_append_ne_markerAt place name (Eq.symm h)
    rw [marked]
    split_ifs
    · exact List.Sublist.refl _
    · exact (Stash.held_put_sublist _ hne _).trans (Stash.held_put_sublist _ hne _)
  rw [marked_eq]
  refine ⟨fun name data hdata => ?_, Nat.le_trans hsub.length_le h.entries,
    Nat.le_trans (Stash.sum_entryBlocks_le hsub fun entry _ => ?_) h.blocks⟩
  · exact h.known name data ((get?_stash_marked name).symm.trans hdata)
  · exact Stash.entryBlocks_congr hsited hsited' (get?_stash_marked _)

/-- A stash without entries is counted. -/
theorem accounts_of_noEntries {m : Machine} (h : NoEntries o m.files place) :
    m.Accounts known (o.stashAt place) := by
  have hnone : ∀ name data, (o.stashAt place ++ [name], Node.file data) ∉ m.files.nodes :=
    fun name data hmem => nomatch h _ hmem name rfl
  have hheld : Stash.held m.files (o.stashAt place) = [] :=
    List.eq_nil_iff_forall_not_mem.mpr fun (name, data) hmem =>
      hnone name data (Stash.mem_held.mp hmem).1
  refine ⟨fun name data hdata => ?_, ?_, ?_⟩
  · exact absurd (FileTree.mem_of_get? (by simp) hdata) (hnone name data)
  · rw [hheld]
    exact Nat.zero_le _
  · rw [Stash.heldBlocks, hheld]
    exact Nat.zero_le _

/-- **Every entry is counted in every machine of a history.** -/
theorem History.accounts (h : History P o place commands count machine)
    (hknown : ∀ k c id data, k < count → instruction? commands k = some c →
      c.Stashes P (machine k) id data → known id data) (hk : k ≤ count) :
    (machine k).Accounts known (o.stashAt place) := by
  induction k with
  | zero => exact accounts_of_noEntries h.empty
  | succ k ih =>
    have hbefore := ih (Nat.le_of_lt hk)
    have hlive := h.live_at (Nat.le_of_lt hk)
    have hsited := h.sited_at (Nat.le_of_lt hk)
    rcases hc : instruction? commands k with _ | c
    · rw [h.step_of_none hk hc]
      exact hbefore
    · obtain ⟨m₁, hrun, hmachine⟩ := h.step_of_instruction? hk hc
      have hwithin := Command.run_within hlive hsited hrun
      rw [hmachine]
      exact accounts_marked h.plain c ((h.work_at (Nat.le_of_lt hk)).congr hwithin.directories)
        (hwithin.stash ▸ h.base_at (Nat.le_of_lt hk)) <|
        Command.run_accounts hlive hsited hbefore (fun id data => hknown k c id data hk hc) hrun

end Session

end BlockUpdate
