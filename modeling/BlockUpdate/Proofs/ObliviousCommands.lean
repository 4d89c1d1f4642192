import BlockUpdate.Proofs.Oblivious

/-!
# What commands take no notice of

Commands look at files only through their stash. So they take no notice of whatever is not in its
directory: of what other sessions left in theirs, for example.

- `Machine.Shows`: the stash of a machine is at a place that is not hidden.
- `Machine.oblivious_onFiles`, `oblivious_look`: the parts that commands are made of.
- **`Command.oblivious_run`**: a command takes no notice of hidden places outside of its stash.
-/

namespace BlockUpdate

open FileTree

namespace Machine

variable {hidden : Place → Bool} {base : FileTree} {stash : Stash} {place : Place} {ε α : Type}
  {m : Machine}

/-- A machine without the files at hidden places. -/
def without (m : Machine) (hidden : Place → Bool) : Machine :=
  { m with files := m.files.without hidden }

/-- A machine with a given stash, among files in which the directories of a tree are not hidden. -/
structure Shows (hidden : Place → Bool) (base : FileTree) (stash : Stash) (m : Machine) : Prop where
  stash : m.stash = stash
  files : FileTree.Shows hidden base m.files

/-! ## Parts of commands -/

theorem oblivious_onFiles {x : FileM StashError α}
    (h : Oblivious (·.without hidden) (FileTree.Shows hidden base) x) :
    Oblivious (·.without hidden) (Shows hidden base stash) (onFiles x) := by
  intro m hm
  obtain ⟨hsame, hafter⟩ := h m.files hm.files
  rw [outcome_machineOnFiles, outcome_machineOnFiles]
  change ((outcome x (m.files.without hidden)).1.mapError CommandFailure.stash,
    { m with files := (outcome x (m.files.without hidden)).2 }) = _ ∧ _
  rw [hsame]
  exact ⟨rfl, hm.stash, hafter⟩

theorem oblivious_onDevice (x : DeviceM BlockError α) :
    Oblivious (·.without hidden) (Shows hidden base stash) (onDevice x) :=
  fun _ hm => ⟨rfl, hm.stash, hm.files⟩

theorem oblivious_look {f : Machine → Except ε α}
    (h : ∀ m, Shows hidden base stash m → f (m.without hidden) = f m) :
    Oblivious (·.without hidden) (Shows hidden base stash) (look f) := by
  intro m hm
  rw [outcome_machineLook, outcome_machineLook, h m hm]
  exact ⟨rfl, hm⟩

theorem oblivious_ofCommand (x : Except CommandError α) :
    Oblivious (·.without hidden) (Shows hidden base stash) (ofCommand x) :=
  oblivious_look fun _ _ => rfl

/-- How counting one more entry ends. -/
theorem reserve_eq (blocks : Nat) (m : Machine) :
    outcome (reserve blocks) m =
      if exceeds (m.stashedEntries + 1) m.header.maxStashEntries = true then
        (.error (.tooManyEntries (m.stashedEntries + 1) m.header.maxStashEntries), m)
      else if exceeds (m.stashedBlocks + blocks) m.header.maxStashBlocks = true then
        (.error (.tooManyBlocks (m.stashedBlocks + blocks) m.header.maxStashBlocks), m)
      else (.ok (), { m with
        stashedEntries := m.stashedEntries + 1, stashedBlocks := m.stashedBlocks + blocks }) := by
  rw [reserve, outcome_get_bind]
  by_cases hentries : exceeds (m.stashedEntries + 1) m.header.maxStashEntries = true
  · rw [if_pos hentries, if_pos hentries]
    rfl
  by_cases hblocks : exceeds (m.stashedBlocks + blocks) m.header.maxStashBlocks = true
  · rw [if_neg hentries, if_neg hentries, if_pos hblocks, if_pos hblocks]
    rfl
  · rw [if_neg hentries, if_neg hentries, if_neg hblocks, if_neg hblocks]
    rfl

theorem oblivious_reserve (blocks : Nat) :
    Oblivious (·.without hidden) (Shows hidden base stash) (reserve blocks) := by
  intro m hm
  rw [reserve_eq, reserve_eq]
  show (if exceeds (m.stashedEntries + 1) m.header.maxStashEntries = true then _
    else if exceeds (m.stashedBlocks + blocks) m.header.maxStashBlocks = true then _ else _) = _ ∧ _
  split_ifs
  · exact ⟨rfl, hm⟩
  · exact ⟨rfl, hm⟩
  · exact ⟨rfl, hm.stash, hm.files⟩

theorem oblivious_release (blocks : Nat) :
    Oblivious (·.without hidden) (Shows hidden base stash) (release blocks) :=
  .modify (fun _ => rfl) fun _ hm => ⟨hm.stash, hm.files⟩

theorem oblivious_addWritten (blocks : Nat) :
    Oblivious (·.without hidden) (Shows hidden base stash) (addWritten blocks) :=
  .modify (fun _ => rfl) fun _ hm => ⟨hm.stash, hm.files⟩

end Machine

/-! ## Sources -/

/-- A source is the same where its stash loads the same. -/
theorem Source.load_eq_of_load? {c : Command} {position : Nat} {d : Device} {s : Stash}
    {t t' : FileTree} (h : ∀ id size, s.load? t' id size = s.load? t id size) :
    Source.load c position d s t' = Source.load c position d s t := by
  have hpiece : Source.addPiece c s t' = Source.addPiece c s t := by
    funext buffer piece
    simp only [Source.addPiece, h]
  rw [Source.load, Source.load, hpiece]

namespace Command

open Machine

variable {P : Primitives} {c : Command} {r : Recipe} {hidden : Place → Bool} {base : FileTree}
  {stash : Stash} {place : Place}

/-! ## Commands without a stash -/

theorem oblivious_fillFromNewData (set : BlockSet) :
    Oblivious (·.without hidden) (Shows hidden base stash) (fillFromNewData set) := by
  intro m hm
  rw [fillFromNewData, outcome_mk, outcome_mk]
  cases hnew : m.newData with
  | none =>
    rw [show (m.without hidden).newData = none from hnew]
    exact ⟨rfl, hm⟩
  | some feed =>
    rw [show (m.without hidden).newData = some feed from hnew]
    dsimp only
    rcases hfill : Feed.fill.run ⟨feed, BlockWriter.new set (!m.canWrite), m.device⟩ with ⟨_ | _, s⟩
    all_goals
      rw [show Feed.fill.run ⟨feed, BlockWriter.new set (!(m.without hidden).canWrite),
        (m.without hidden).device⟩ = _ from hfill]
      exact ⟨rfl, hm.stash, hm.files⟩

theorem oblivious_writeNewData :
    Oblivious (·.without hidden) (Shows hidden base stash) c.writeNewData :=
  .bind (oblivious_ofCommand _) fun set => .bind (oblivious_fillFromNewData set) fun _ =>
    oblivious_addWritten _

theorem oblivious_clear : Oblivious (·.without hidden) (Shows hidden base stash) c.clear := by
  refine .bind (oblivious_ofCommand _) fun set => ?_
  have hcount : Oblivious (·.without hidden) (Shows hidden base stash)
      (if (!(c.verb == .erase)) = true then addWritten set.total else Pure.pure ()) :=
    .ite (fun _ => oblivious_addWritten _) fun _ => .pure _
  refine .get_bind (fun _ _ => rfl) fun m _ => .ite (fun _ => ?_) fun _ => hcount
  exact .get_bind (fun _ _ => rfl) fun m _ => .bind (oblivious_onDevice _) fun _ => hcount

theorem oblivious_writeTarget (data : Bytes) :
    Oblivious (·.without hidden) (Shows hidden base stash) (writeTarget P c r data) := by
  have hsync : Oblivious (·.without hidden) (Shows hidden base stash)
      (onDevice (DeviceM.sync.mapError BlockError.os)) := oblivious_onDevice _
  refine .ite (fun _ => .bind (oblivious_onDevice _) fun _ => hsync) fun _ => ?_
  exact .bind (oblivious_look fun _ _ => rfl) fun _ => .bind (oblivious_onDevice _) fun _ => hsync

theorem oblivious_checkTarget :
    Oblivious (·.without hidden) (Shows hidden base stash) (checkTarget P r) :=
  .get_bind (fun _ _ => rfl) fun _ _ => .ite (fun _ => .throw _) fun _ => .pure _

/-! ## Commands with a stash -/

section

variable (hbase : stash.Sited base place) (hshown : ∀ q, place <+: q → hidden q = false)

include hbase hshown

theorem source_without {m : Machine} (hm : Shows hidden base stash m) :
    c.source P r (m.without hidden) = c.source P r m := by
  have hload : ∀ id size, m.stash.load? (m.files.without hidden) id size =
      m.stash.load? m.files id size := by
    rw [hm.stash]
    exact Stash.load?_without hbase hshown hm.files
  simp only [source, recover, Machine.without, Source.load_eq_of_load? hload, hload]

theorem oblivious_store {m : Machine} (hm : Shows hidden base stash m) (blocks : Nat) (id : String)
    (data : Bytes) :
    Oblivious (·.without hidden) (Shows hidden base stash)
      (reserve blocks >>= fun _ => onFiles (m.stash.store id data)) :=
  .bind (oblivious_reserve _) fun _ => oblivious_onFiles
    (hm.stash ▸ Stash.oblivious_store hbase hshown id data)

theorem oblivious_keepSource (s : Source) :
    Oblivious (·.without hidden) (Shows hidden base stash) (keepSource r s) := by
  refine .get_bind (fun m hm => ?_) fun m hm => ?_
  · have hcontains : m.stash.contains (m.files.without hidden) r.sourceHash =
        m.stash.contains m.files r.sourceHash := by
      rw [hm.stash]
      exact Stash.contains_without hbase hshown hm.files _
    simp only [Machine.without, hcontains]
  · cases s.device with
    | none => exact .pure _
    | some set => exact .ite (fun _ => oblivious_store hbase hshown hm _ _ _) fun _ => .pure _

theorem oblivious_dropSource :
    Oblivious (·.without hidden) (Shows hidden base stash) (dropSource r) := by
  refine .get_bind (fun m hm => ?_) fun m hm => ?_
  · have hsize : m.stash.entrySize? (m.files.without hidden) r.sourceHash =
        m.stash.entrySize? m.files r.sourceHash := by
      rw [hm.stash]
      exact Stash.entrySize?_without hbase hshown hm.files _
    simp only [Machine.without, hsize]
  · cases m.stash.entrySize? m.files r.sourceHash with
    | none => exact .pure _
    | some size =>
      exact .bind (oblivious_release _) fun _ => oblivious_onFiles
        (hm.stash ▸ Stash.oblivious_free hbase hshown _)

theorem oblivious_makeTarget :
    Oblivious (·.without hidden) (Shows hidden base stash) (c.makeTarget P) := by
  refine .bind (oblivious_ofCommand _) fun r => .get_bind (fun _ _ => rfl) fun m _ => ?_
  cases r.target.read? m.device with
  | none => exact .throw _
  | some current =>
    refine .ite (fun _ => .bind (oblivious_look fun _ => source_without hbase hshown) fun s => ?_)
      fun _ => .pure _
    refine .ite (fun _ => ?_) fun _ => ?_
    · exact .bind (.bind (oblivious_keepSource hbase hshown s) fun _ =>
        .bind (oblivious_writeTarget _) fun _ => .bind oblivious_checkTarget fun _ =>
          oblivious_dropSource hbase hshown) fun _ => oblivious_addWritten _
    · exact .bind (oblivious_look fun _ _ => rfl) fun _ => oblivious_addWritten _

theorem oblivious_stashBlocks :
    Oblivious (·.without hidden) (Shows hidden base stash) (c.stashBlocks P) := by
  refine .bind (oblivious_ofCommand _) fun id => .bind (oblivious_ofCommand _) fun set =>
    .get_bind (fun m hm => ?_) fun m hm => ?_
  · have hsize : m.stash.entrySize? (m.files.without hidden) id = m.stash.entrySize? m.files id := by
      rw [hm.stash]
      exact Stash.entrySize?_without hbase hshown hm.files _
    simp only [Machine.without, hsize]
    rfl
  · refine .ite (fun _ => ?_) fun _ => .pure _
    cases set.read? m.device with
    | none => exact .throw _
    | some data =>
      exact .ite (fun _ => oblivious_store hbase hshown hm _ _ _) fun _ =>
        .ite (fun _ => .throw _) fun _ => .pure _

theorem oblivious_freeEntry :
    Oblivious (·.without hidden) (Shows hidden base stash) c.freeEntry := by
  refine .bind (oblivious_ofCommand _) fun id => .get_bind (fun m hm => ?_) fun m hm => ?_
  · have hsize : m.stash.entrySize? (m.files.without hidden) id = m.stash.entrySize? m.files id := by
      rw [hm.stash]
      exact Stash.entrySize?_without hbase hshown hm.files _
    simp only [Machine.without, hsize]
  · have hfree : Oblivious (·.without hidden) (Shows hidden base stash)
        (onFiles (m.stash.free id)) :=
      oblivious_onFiles (hm.stash ▸ Stash.oblivious_free hbase hshown id)
    refine .ite (fun _ => ?_) fun _ => .pure _
    cases m.stash.entrySize? m.files id with
    | none => exact hfree
    | some size => exact .bind (oblivious_release _) fun _ => hfree

/-- **A command takes no notice of what is not in its stash.** -/
theorem oblivious_run (P : Primitives) (c : Command) :
    Oblivious (·.without hidden) (Shows hidden base stash) (c.run P) := by
  rw [run.eq_def]
  cases c.verb with
  | abort => exact .pure _
  | other => exact .pure _
  | new => exact oblivious_writeNewData
  | zero => exact oblivious_clear
  | erase => exact oblivious_clear
  | move => exact oblivious_makeTarget hbase hshown
  | copy => exact oblivious_makeTarget hbase hshown
  | bsdiff => exact oblivious_makeTarget hbase hshown
  | imgdiff => exact oblivious_makeTarget hbase hshown
  | stash => exact oblivious_stashBlocks hbase hshown
  | free => exact oblivious_freeEntry hbase hshown

end

end Command

end BlockUpdate
