import BlockUpdate.Proofs.Confinement
import BlockUpdate.Proofs.Digest

/-!
# A run that follows another

A session that resumes repeats the commands of the session before it in a machine of its own: the
device answers reads alike, but the stash may hold entries that the other one has freed since.

- `Slack`: how far the stash may differ.
- `Machine.Follows`: the machine of a resumed session beside that of the session it repeats.
- `Machine.Repeats`: a computation succeeds and leaves a machine that follows, unless the device
  fails.
- **`Command.follow`**: a command that succeeded is repeated by a machine that follows.
- **`Command.follow_again`**: also by one that follows what the command left. To do it twice makes
  no difference.
-/

namespace BlockUpdate

/-- Nothing limits the stash. -/
def ScriptHeader.Unlimited (h : ScriptHeader) : Prop :=
  h.maxStashEntries = 0 ∧ h.maxStashBlocks = 0

theorem ScriptHeader.Unlimited.hasRoom {m : Machine} (h : m.header.Unlimited) (blocks : Nat) :
    m.HasRoom blocks := by
  rw [Machine.HasRoom, h.1, h.2]
  exact ⟨rfl, rfl⟩

/-! ## Slack -/

/-- How far the stash of a machine may differ from that of the one that it follows. -/
inductive Slack
  /-- It may hold more. What it holds is known by its name, and nothing limits it. -/
  | known (entry : String → Bytes → Prop) (unique : ∀ id a b, entry id a → entry id b → a = b)
  /-- It holds the same, and no more of it is counted. -/
  | none

namespace Slack

/-- What is true of the stashes of a machine and of one that follows it. -/
def Holds (place : Place) (m n : Machine) : Slack → Prop
  | known entry _ => n.header.Unlimited ∧
      ∀ name data, n.files.get? (place ++ [name]) = some (.file data) → entry name data
  | none => (n.stashedEntries ≤ m.stashedEntries ∧ n.stashedBlocks ≤ m.stashedBlocks) ∧
      ∀ name, n.files.get? (place ++ [name]) = m.files.get? (place ++ [name])

/-- Whether an entry may be stored. -/
def Allows (id : String) (data : Bytes) : Slack → Prop
  | known entry _ => entry id data
  | none => True

end Slack

namespace Machine

/-- `n` follows `m`: it has the same control state and a device that answers reads alike, and its
stash, which an earlier session made, holds all that the stash of `m` does. -/
structure Follows (slack : Slack) (place : Place) (m n : Machine) : Prop where
  reads : m.device.SameReads n.device
  live : m.canWrite = true
  live' : n.canWrite = true
  header : n.header = m.header
  allowFileErase : n.allowFileErase = m.allowFileErase
  patchData : n.patchData = m.patchData
  newData : n.newData = m.newData
  sited : m.stash.Sited m.files place
  sited' : n.stash.Sited n.files place
  resumed : n.stash.created = false
  entries : ∀ name, n.files.get? (place ++ [name]) = m.files.get? (place ++ [name]) ∨
    m.files.get? (place ++ [name]) = none ∧
      ∃ data, n.files.get? (place ++ [name]) = some (.file data)
  slack : slack.Holds place m n

namespace Follows

variable {slack : Slack} {place : Place} {m n m' n' : Machine} {id : String}

/-! ## The stash -/

theorem get? (h : Follows slack place m n) {node : Node}
    (hnode : m.files.get? (place ++ [id]) = some node) :
    n.files.get? (place ++ [id]) = some node := by
  rcases h.entries id with hsame | ⟨hnone, -⟩
  · rw [hsame, hnode]
  · rw [hnone] at hnode
    cases hnode

theorem not_directory (h : Follows slack place m n)
    (hdir : m.files.get? (place ++ [id]) ≠ some .directory) :
    n.files.get? (place ++ [id]) ≠ some .directory := by
  rcases h.entries id with hsame | ⟨-, data, hdata⟩
  · rw [hsame]
    exact hdir
  · rw [hdata]
    exact nofun

theorem storable (h : Follows slack place m n) (hm : Stash.Storable m.files place id) :
    Stash.Storable n.files place id :=
  ⟨hm.valid, hm.size, h.not_directory hm.temporary, h.not_directory hm.entry⟩

theorem hasRoom (h : Follows slack place m n) {blocks : Nat} (hm : m.HasRoom blocks) :
    n.HasRoom blocks := by
  have hslack := h.slack
  cases slack with
  | known entry unique => exact hslack.1.hasRoom blocks
  | none =>
    obtain ⟨⟨hentries, hblocks⟩, -⟩ := hslack
    exact hm.of_le h.header hentries hblocks

/-- Loading an entry is the same, if it is there or the stashes are the same. -/
theorem load? (h : Follows slack place m n)
    (hid : slack = .none ∨ m.stash.contains m.files id = true) (size : Nat) :
    n.stash.load? n.files id size = m.stash.load? m.files id size := by
  refine Stash.load?_congr h.sited h.sited' ?_ size
  rcases hid with rfl | hid
  · exact h.slack.2 id
  · obtain ⟨-, data, hdata⟩ := (Stash.contains_iff h.sited).mp hid
    rw [hdata, h.get? hdata]

/-! ## Changes on both sides -/

theorem wrote (h : Follows slack place m n) (ws : List Write) :
    Follows slack place (m.wrote ws) (n.wrote ws) :=
  { h with
    reads := h.reads.after ws
    slack := by cases slack <;> exact h.slack }

/-- What was written and counted makes no difference, and new data goes on alike. -/
theorem fed (h : Follows slack place m n) (feed : Option Feed) (a b : Nat) :
    Follows slack place { m with newData := feed, written := a }
      { n with newData := feed, written := b } :=
  { h with
    newData := rfl
    slack := by cases slack <;> exact h.slack }

theorem counted (h : Follows slack place m n) (a b : Nat) :
    Follows slack place { m with written := a } { n with written := b } :=
  { h with slack := by cases slack <;> exact h.slack }

/-- Both store the same entry. -/
theorem keeping (h : Follows slack place m n) (hm : Stash.Storable m.files place id)
    (blocks : Nat) {data : Bytes} (hdata : slack.Allows id data) :
    Follows slack place (m.keeping place id blocks data) (n.keeping place id blocks data) := by
  have hsame : ∀ name, (n.keeping place id blocks data).files.get? (place ++ [name]) =
        (m.keeping place id blocks data).files.get? (place ++ [name]) ∨
      (m.keeping place id blocks data).files.get? (place ++ [name]) = none ∧
        ∃ found, (n.keeping place id blocks data).files.get? (place ++ [name]) =
          some (.file found) := by
    intro name
    show (Stash.stored _ _ _ _).get? _ = (Stash.stored _ _ _ _).get? _ ∨
      (Stash.stored _ _ _ _).get? _ = none ∧ ∃ found, (Stash.stored _ _ _ _).get? _ = _
    simp only [Stash.get?_stored]
    split_ifs
    · exact .inl rfl
    · exact .inl rfl
    · exact h.entries name
  refine { h with
    sited := (within_keeping (fun _ => False) hm blocks data).sited h.sited
    sited' := (within_keeping (fun _ => False) (h.storable hm) blocks data).sited h.sited'
    entries := hsame
    slack := ?_ }
  have hslack := h.slack
  cases slack with
  | known entry unique =>
    refine ⟨hslack.1, fun name found hfound => ?_⟩
    change (Stash.stored _ _ _ _).get? _ = _ at hfound
    rw [Stash.get?_stored] at hfound
    split_ifs at hfound with hid
    · obtain rfl : name = id := by simpa using hid
      cases hfound
      exact hdata
    · exact hslack.2 name found hfound
  | none =>
    refine ⟨⟨Nat.add_le_add_right hslack.1.1 1, Nat.add_le_add_right hslack.1.2 blocks⟩,
      fun name => ?_⟩
    show (Stash.stored _ _ _ _).get? _ = (Stash.stored _ _ _ _).get? _
    simp only [Stash.get?_stored, hslack.2]

theorem entrySize? (h : Follows slack place m n) {size : Nat}
    (hsize : m.stash.entrySize? m.files id = some size) :
    n.stash.entrySize? n.files id = some size := by
  obtain ⟨hid, hfound⟩ := (Stash.entrySize?_eq_some h.sited).mp hsize
  refine (Stash.entrySize?_eq_some h.sited').mpr ⟨hid, ?_⟩
  rcases hfound with ⟨data, hdata, hlength⟩ | ⟨hdir, hlength⟩
  · exact .inl ⟨data, h.get? hdata, hlength⟩
  · exact .inr ⟨h.get? hdir, hlength⟩

/-- What an entry of one's own says about the other stash. -/
theorem get?_eq_none (h : Follows slack place m n)
    (hsize : m.stash.entrySize? m.files id = none) (hid : Stash.Entry id) :
    m.files.get? (place ++ [id]) = none :=
  ((Stash.entrySize?_eq_none h.sited).mp hsize).resolve_left fun h => h hid

theorem get?_dropped {m : Machine} (hdir : m.files.get? (place ++ [id]) ≠ some .directory)
    (size : Nat) (name : String) :
    (m.dropped place id size).files.get? (place ++ [name]) =
      if name = id then none else m.files.get? (place ++ [name]) := by
  show (m.files.removed _).get? _ = _
  rw [FileTree.get?_removed m.files hdir]
  simp

theorem sited_dropped {m : Machine} (hm : m.stash.Sited m.files place)
    (hdir : m.files.get? (place ++ [id]) ≠ some .directory) (size : Nat) :
    (m.dropped place id size).stash.Sited (m.dropped place id size).files place :=
  hm.mono fun p => (FileTree.directory_iff_of_get? (FileTree.get?_removed m.files hdir) hdir nofun p).mpr

/-- Both drop the same entry. -/
theorem dropped (h : Follows slack place m n)
    (hdir : m.files.get? (place ++ [id]) ≠ some .directory) (size : Nat) :
    Follows slack place (m.dropped place id size) (n.dropped place id size) := by
  have hdir' := h.not_directory hdir
  refine { h with
    sited := sited_dropped h.sited hdir size
    sited' := sited_dropped h.sited' hdir' size
    entries := fun name => ?_
    slack := ?_ }
  · rw [get?_dropped hdir, get?_dropped hdir']
    split_ifs
    · exact .inl rfl
    · exact h.entries name
  · have hslack := h.slack
    cases slack with
    | known entry unique =>
      refine ⟨hslack.1, fun name data hdata => ?_⟩
      rw [get?_dropped hdir'] at hdata
      split_ifs at hdata
      exact hslack.2 name data hdata
    | none =>
      refine ⟨⟨Nat.sub_le_sub_right hslack.1.1 1, Nat.sub_le_sub_right hslack.1.2 _⟩, fun name => ?_⟩
      rw [get?_dropped hdir, get?_dropped hdir', hslack.2]

/-- An entry is dropped by both, if either has it. -/
theorem drops (h : Follows slack place m n) (hm : m.Drops place id m') :
    ∃ n', n.Drops place id n' ∧ Follows slack place m' n' := by
  rcases hm with ⟨hnone, rfl⟩ | ⟨size, hsize, hdir, rfl⟩
  · rcases hsize : n.stash.entrySize? n.files id with _ | size
    · exact ⟨n, .inl ⟨hsize, rfl⟩, h⟩
    · -- it is one of the entries that only this stash holds
      obtain ⟨hid, hfound⟩ := (Stash.entrySize?_eq_some h.sited').mp hsize
      have hm := h.get?_eq_none hnone hid
      have hdir : n.files.get? (place ++ [id]) ≠ some .directory :=
        h.not_directory (by rw [hm]; exact nofun)
      refine ⟨n.dropped place id size, .inr ⟨size, hsize, hdir, rfl⟩, { h with
        sited' := sited_dropped h.sited' hdir size
        entries := fun name => ?_
        slack := ?_ }⟩
      · rw [get?_dropped hdir]
        split_ifs with hname
        · rw [hname, hm]
          exact .inl rfl
        · exact h.entries name
      · have hslack := h.slack
        cases slack with
        | known entry unique =>
          refine ⟨hslack.1, fun name data hdata => ?_⟩
          rw [get?_dropped hdir] at hdata
          split_ifs at hdata
          exact hslack.2 name data hdata
        | none =>
          rw [hslack.2, hm] at hfound
          simp at hfound
  · exact ⟨_, .inr ⟨size, h.entrySize? hsize, h.not_directory hdir, rfl⟩, h.dropped hdir size⟩

/-! ## Changes on one side -/

/-- An entry that is stored may be held already. -/
theorem keeping_held {entry : String → Bytes → Prop}
    {unique : ∀ id a b, entry id a → entry id b → a = b}
    (h : Follows (.known entry unique) place m n) (hm : Stash.Storable m.files place id)
    (blocks : Nat) {data : Bytes} (hdata : n.files.get? (place ++ [id]) = some (.file data)) :
    Follows (.known entry unique) place (m.keeping place id blocks data) n := by
  refine { h with
    sited := (within_keeping (fun _ => False) hm blocks data).sited h.sited
    entries := fun name => ?_ }
  show n.files.get? _ = (Stash.stored _ _ _ _).get? _ ∨ (Stash.stored _ _ _ _).get? _ = none ∧ _
  rw [Stash.get?_stored]
  split_ifs with hid htemporary
  · obtain rfl : name = id := by simpa using hid
    exact .inl hdata
  · rw [htemporary]
    rcases hfound : n.files.get? (place ++ [Stash.temporaryName id]) with _ | found | _
    · exact .inl rfl
    · exact .inr ⟨rfl, found, rfl⟩
    · exact absurd hfound (h.not_directory hm.temporary)
  · exact h.entries name

/-- An entry that is freed may be left in place. -/
theorem freed (h : Follows slack place m n) (hm : m.Drops place id m')
    (hslack : slack = .none → n.stash.entrySize? n.files id = none) :
    Follows slack place m' n := by
  rcases hm with ⟨-, rfl⟩ | ⟨size, hsize, hdir, rfl⟩
  · exact h
  · have hheld := h.slack
    cases slack with
    | known entry unique =>
      refine { h with
        sited := sited_dropped h.sited hdir size
        entries := fun name => ?_ }
      rw [get?_dropped hdir]
      split_ifs with hname
      · obtain ⟨-, ⟨data, hdata, -⟩ | ⟨hfound, -⟩⟩ := (Stash.entrySize?_eq_some h.sited).mp hsize
        · exact .inr ⟨rfl, data, by rw [hname, h.get? hdata]⟩
        · exact absurd hfound hdir
      · exact h.entries name
    | none =>
      have := h.entrySize? hsize
      rw [hslack rfl] at this
      cases this

end Follows

/-! ## Repeating -/

/-- A computation succeeds and leaves what is wanted; only a device with faults may make it fail,
and not because of a limit. -/
def Repeats (x : MachineM CommandFailure Unit) (wanted : Machine → Prop) (n : Machine) : Prop :=
  (∃ n', outcome x n = (.ok (), n') ∧ wanted n') ∨
    n.device.faults ≠ Faults.none ∧ ∃ e n', outcome x n = (.error e, n') ∧ ¬ e.IsLimit

theorem Repeats.of_does {x : MachineM CommandFailure Unit} {ws : List Write}
    {f : Machine → Machine} {n : Machine} {wanted : Machine → Prop} (h : Does x ws f n)
    (hwanted : wanted (f (n.wrote ws))) : Repeats x wanted n :=
  h.imp_left fun h => ⟨_, h, hwanted⟩

/-- What a computation leaves may have more to it. -/
theorem Repeats.imp {x : MachineM CommandFailure Unit} {n : Machine}
    {wanted wanted' : Machine → Prop} (h : Repeats x wanted n)
    (himp : ∀ n', outcome x n = (.ok (), n') → wanted n' → wanted' n') : Repeats x wanted' n :=
  h.imp_left fun ⟨n', hrun, hn⟩ => ⟨n', hrun, himp n' hrun hn⟩

end Machine

namespace Command

variable {P : Primitives} {c : Command} {slack : Slack} {place : Place} {m n m' : Machine}

/-! ## What commands do with the stash -/

/-- The entries that a command stores when it runs in a machine. -/
inductive Stashes (P : Primitives) (c : Command) (m : Machine) : String → Bytes → Prop
  | blocks {id : String} {set : BlockSet} {data : Bytes} (hverb : c.verb = .stash)
      (hid : c.arg 0 = .ok id) (hset : c.blockSet 1 = .ok set)
      (hsize : m.stash.entrySize? m.files id ≠ some set.byteLength)
      (hread : set.read? m.device = some data)
      (hverify : Checksum.verify P data set.total id = true) : Stashes P c m id data
  | source {r : Recipe} {s : Source} (hmakes : c.makesTarget) (hneeds : c.Needs P m r)
      (hsource : c.source P r m = .ok s) (hkeeps : Keeps r s m) : Stashes P c m r.sourceHash s.data

/-- The pieces of the stash that a command reads when it runs in a machine. -/
def ReadsPiece (P : Primitives) (c : Command) (m : Machine) (id : String) : Prop :=
  c.makesTarget ∧ ∃ r, c.Needs P m r ∧ ∃ piece ∈ Source.pieces c r.sourcePosition,
    ∃ text, Blank.splitFirst? ':' piece = some (id, text)

/-- A command leaves an entry in place that it would free in the session that made the stash. -/
def LeavesEntry (c : Command) (m : Machine) : Prop :=
  c.verb = .free ∧ m.stash.created = false ∧
    ∃ id size, c.arg 0 = .ok id ∧ m.stash.entrySize? m.files id = some size

theorem source_verified {r : Recipe} {s : Source} (h : c.source P r m = .ok s)
    (hsited : m.stash.Sited m.files place) :
    Checksum.verify P s.data s.blocks r.sourceHash = true ∧
      s.data.size = s.blocks * blockSize := by
  obtain ⟨found, hload, ⟨hverify, rfl⟩ | ⟨-, data, hrecover, hverify, rfl⟩⟩ := source_eq_ok.mp h
  · exact ⟨hverify, Source.size_load hload⟩
  · exact ⟨hverify, ((Stash.load?_eq_some hsited).mp hrecover).2.2⟩

/-- **What is stashed has the digest that names it.** -/
theorem Stashes.verified {id : String} {data : Bytes} (h : c.Stashes P m id data)
    (hsited : m.stash.Sited m.files place) :
    ∃ blocks, Checksum.verify P data blocks id = true ∧ data.size = blocks * blockSize := by
  cases h with
  | blocks hverb hid hset hsize hread hverify =>
    exact ⟨_, hverify, BlockSet.size_of_read? (sound_of_blockSet hset) hread⟩
  | source hmakes hneeds hsource hkeeps => exact ⟨_, source_verified hsource hsited⟩

/-! ## Following a command -/

section Follow

variable (h : m.Follows slack place n)

include h

theorem follow_upToDate {r : Recipe} (hr : UpToDate P r m) : UpToDate P r n := by
  obtain ⟨current, hread, hverify⟩ := hr
  exact ⟨current, (BlockSet.read?_sameReads h.reads).trans hread, hverify⟩

theorem follow_needs {r : Recipe} (hr : Needs P c m r) : Needs P c n r := by
  obtain ⟨hr, current, hread, hverify⟩ := hr
  exact ⟨hr, current, (BlockSet.read?_sameReads h.reads).trans hread, hverify⟩

/-- The source is the same, if its pieces are there or the stashes are the same. -/
theorem follow_source {r : Recipe} {s : Source} (hs : c.source P r m = .ok s)
    (hpieces : slack = .none ∨ ∀ piece ∈ Source.pieces c r.sourcePosition, ∀ id text,
      Blank.splitFirst? ':' piece = some (id, text) → m.stash.contains m.files id = true) :
    c.source P r n = .ok s := by
  obtain ⟨found, hload, hfound⟩ := source_eq_ok.mp hs
  refine source_eq_ok.mpr ⟨found, ?_, hfound.imp_right ?_⟩
  · refine Source.load_congr (fun first range _ _ => BlockSet.readInto_sameReads h.reads)
      (fun piece hmem id text hsplit size => h.load? ?_ size) hload
    exact hpieces.imp_right fun hall => hall piece hmem id text hsplit
  · rintro ⟨hverify, data, hrecover, hdata, rfl⟩
    obtain ⟨hid, hfile, hsize⟩ := (Stash.load?_eq_some h.sited).mp hrecover
    exact ⟨hverify, data, (Stash.load?_eq_some h.sited').mpr ⟨hid, h.get? hfile, hsize⟩, hdata,
      rfl⟩

/-- A source that is kept is kept by both, unless it is held already. -/
theorem follow_keepSource {r : Recipe} {s : Source} (hkeep : outcome (keepSource r s) m = (.ok (), m'))
    (hallows : Keeps r s m → slack.Allows r.sourceHash s.data) :
    ∃ n', outcome (keepSource r s) n = (.ok (), n') ∧ m'.Follows slack place n' := by
  rcases (keepSource_eq_ok h.sited).mp hkeep with ⟨hkeeps, hroom, hstorable, rfl⟩ | ⟨hnot, rfl⟩
  · by_cases hkeeps' : Keeps r s n
    · exact ⟨_, (keepSource_eq_ok h.sited').mpr (.inl ⟨hkeeps', h.hasRoom hroom, h.storable hstorable,
        rfl⟩), h.keeping hstorable s.blocks (hallows hkeeps)⟩
    · refine ⟨n, (keepSource_eq_ok h.sited').mpr (.inr ⟨hkeeps', rfl⟩), ?_⟩
      -- the stash that follows holds the entry already
      obtain ⟨set, hset, hoverlap, hcontains⟩ := hkeeps
      have hheld : n.stash.contains n.files r.sourceHash = true := by
        rw [← Bool.not_eq_false]
        exact fun hnot => hkeeps' ⟨set, hset, hoverlap, hnot⟩
      obtain ⟨hid, data, hdata⟩ := (Stash.contains_iff h.sited').mp hheld
      have hallows := hallows ⟨set, hset, hoverlap, hcontains⟩
      have hslack := h.slack
      cases slack with
      | known entry unique =>
        rw [unique _ _ _ (hslack.2 _ data hdata) hallows] at hdata
        exact h.keeping_held hstorable s.blocks hdata
      | none =>
        rw [hslack.2] at hdata
        rw [(Stash.contains_iff h.sited).mpr ⟨hid, data, hdata⟩] at hcontains
        cases hcontains
  · refine ⟨n, (keepSource_eq_ok h.sited').mpr (.inr ⟨fun hkeeps => hnot ?_, rfl⟩), h⟩
    obtain ⟨set, hset, hoverlap, hcontains⟩ := hkeeps
    refine ⟨set, hset, hoverlap, Bool.eq_false_iff.mpr fun hheld => ?_⟩
    obtain ⟨hid, data, hdata⟩ := (Stash.contains_iff h.sited).mp hheld
    rw [(Stash.contains_iff h.sited').mpr ⟨hid, data, h.get? hdata⟩] at hcontains
    cases hcontains

theorem follow_applyRecipe {r : Recipe} (hr : r.target.Sound) {s : Source}
    (hrun : outcome (applyRecipe P c r s) m = (.ok (), m'))
    (hallows : Keeps r s m → slack.Allows r.sourceHash s.data) :
    Machine.Repeats (applyRecipe P c r s) (m'.Follows slack place) n := by
  obtain ⟨m₁, m₂, hkeep, hwrites, hverify, hdrop⟩ := applyRecipe_eq_ok.mp hrun
  obtain ⟨n₁, hkeep', h₁⟩ := follow_keepSource h hkeep hallows
  obtain ⟨ws, -, rfl, hdoes⟩ := writeTarget_eq_ok hr hwrites
  rcases hdoes n₁ h₁.reads.discards h₁.patchData with hwrites' | ⟨hfaults, e, n', hfail, hlimit⟩
  · have h₂ := h₁.wrote ws
    obtain ⟨n₃, hdrops, h₃⟩ := h₂.drops ((dropSource_eq_ok h₂.sited).mp hdrop)
    refine .inl ⟨n₃, applyRecipe_eq_ok.mpr ⟨n₁, n₁.wrote ws, hkeep', hwrites', ?_,
      (dropSource_eq_ok h₂.sited').mpr hdrops⟩, h₃⟩
    rw [BlockSet.readInto_sameReads h₂.reads]
    exact hverify
  · have hsame : n₁.device = n.device := by
      rcases (keepSource_eq_ok h.sited').mp hkeep' with ⟨-, -, -, rfl⟩ | ⟨-, rfl⟩ <;> rfl
    refine .inr ⟨hsame ▸ hfaults, e, n', ?_, hlimit⟩
    rw [applyRecipe, outcome_bind_of_ok hkeep', outcome_bind_of_error hfail]

theorem follow_makeTarget (hmakes : c.makesTarget)
    (hrun : outcome (makeTarget P c) m = (.ok (), m'))
    (hallows : ∀ id data, c.Stashes P m id data → slack.Allows id data)
    (hpieces : slack = .none ∨
      ∀ id, c.ReadsPiece P m id → m.stash.contains m.files id = true) :
    Machine.Repeats (makeTarget P c) (m'.Follows slack place) n := by
  rcases (makeTarget_eq_ok h.live).mp hrun with ⟨r, hr, hdate, rfl⟩ |
    ⟨r, s, m₁, hneeds, hs, happly, rfl⟩
  · exact .inl ⟨n, makeTarget_of_upToDate hr (follow_upToDate h hdate), h⟩
  · have hs' := follow_source h hs <| hpieces.imp_right fun hall piece hmem id text hsplit =>
      hall id ⟨hmakes, r, hneeds, piece, hmem, text, hsplit⟩
    have hmake := makeTarget_of_needs h.live' (follow_needs h hneeds) hs'
    rcases follow_applyRecipe h (sound_of_blockSet (blockSet_of_recipe hneeds.1)) happly
      fun hkeeps => hallows _ _ (.source hmakes hneeds hs hkeeps) with
      ⟨n₁, happly', h₁⟩ | ⟨hfaults, e, n', hfail, hlimit⟩
    · refine .inl ⟨{ n₁ with written := n₁.written + r.target.total }, ?_, h₁.counted _ _⟩
      rw [hmake, outcome_bind_of_ok happly']
      rfl
    · exact .inr ⟨hfaults, e, n', by rw [hmake, outcome_bind_of_error hfail], hlimit⟩

theorem follow_stashBlocks (hverb : c.verb = .stash)
    (hrun : outcome (stashBlocks P c) m = (.ok (), m'))
    (hallows : ∀ id data, c.Stashes P m id data → slack.Allows id data) :
    ∃ n', outcome (stashBlocks P c) n = (.ok (), n') ∧ m'.Follows slack place n' := by
  obtain ⟨id, set, hid, hset, ⟨hsize, rfl⟩ | ⟨hsize, data, hread, hverify, hroom, hstorable, rfl⟩⟩ :=
    (stashBlocks_eq_ok h.live h.sited).mp hrun
  · exact ⟨n, (stashBlocks_eq_ok h.live' h.sited').mpr
      ⟨id, set, hid, hset, .inl ⟨h.entrySize? hsize, rfl⟩⟩, h⟩
  · have hdata := hallows id data (.blocks hverb hid hset hsize hread hverify)
    by_cases hsize' : n.stash.entrySize? n.files id = some set.byteLength
    · refine ⟨n, (stashBlocks_eq_ok h.live' h.sited').mpr
        ⟨id, set, hid, hset, .inl ⟨hsize', rfl⟩⟩, ?_⟩
      -- the stash that follows holds the entry already
      obtain ⟨hentry, hfound⟩ := (Stash.entrySize?_eq_some h.sited').mp hsize'
      have hslack := h.slack
      cases slack with
      | known entry unique =>
        rcases hfound with ⟨found, hfound, -⟩ | ⟨hdir, -⟩
        · rw [unique _ _ _ (hslack.2 _ found hfound) hdata] at hfound
          exact h.keeping_held hstorable set.total hfound
        · exact absurd hdir (h.not_directory hstorable.entry)
      | none =>
        rw [hslack.2] at hfound
        exact absurd ((Stash.entrySize?_eq_some h.sited).mpr ⟨hentry, hfound⟩) hsize
    · exact ⟨_, (stashBlocks_eq_ok h.live' h.sited').mpr ⟨id, set, hid, hset, .inr ⟨hsize', data,
        (BlockSet.read?_sameReads h.reads).trans hread, hverify, h.hasRoom hroom,
        h.storable hstorable, rfl⟩⟩, h.keeping hstorable set.total hdata⟩

theorem follow_freeEntry (hverb : c.verb = .free) (hrun : outcome c.freeEntry m = (.ok (), m'))
    (hleaves : slack = .none → ¬ c.LeavesEntry n) :
    ∃ n', outcome c.freeEntry n = (.ok (), n') ∧ m'.Follows slack place n' := by
  obtain ⟨id, hid, hfree⟩ := (freeEntry_eq_ok h.sited).mp hrun
  refine ⟨n, (freeEntry_eq_ok h.sited').mpr ⟨id, hid, .inl ⟨h.resumed, rfl⟩⟩, ?_⟩
  rcases hfree with ⟨-, rfl⟩ | ⟨-, -, hdrops⟩
  · exact h
  · refine h.freed hdrops fun hnone => ?_
    rcases hsize : n.stash.entrySize? n.files id with _ | size
    · rfl
    · exact absurd ⟨hverb, h.resumed, id, size, hid, hsize⟩ (hleaves hnone)

/-- **A command that succeeded is repeated by a machine that follows.** -/
theorem follow (hrun : outcome (c.run P) m = (.ok (), m'))
    (hallows : ∀ id data, c.Stashes P m id data → slack.Allows id data)
    (hpieces : slack = .none ∨
      ∀ id, c.ReadsPiece P m id → m.stash.contains m.files id = true)
    (hleaves : slack = .none → ¬ c.LeavesEntry n) :
    Machine.Repeats (c.run P) (m'.Follows slack place) n := by
  rw [run] at hrun ⊢
  cases hverb : c.verb <;> rw [hverb] at hrun <;> simp only at hrun ⊢
  case abort | other =>
    obtain rfl := congrArg Prod.snd hrun
    exact .inl ⟨n, rfl, h⟩
  case new =>
    obtain ⟨set, feed, feed', ws, -, hfeed, -, rfl, hdoes⟩ := writeNewData_eq_ok h.live hrun
    exact .of_does (hdoes n h.reads.discards h.live' (h.newData.trans hfeed)) ((h.wrote ws).fed _ _ _)
  case zero | erase =>
    obtain ⟨set, ws, -, -, rfl, hdoes⟩ := clear_eq_ok h.live hrun
    exact .of_does (hdoes n h.reads.discards h.live' h.allowFileErase) ((h.wrote ws).counted _ _)
  case move | copy | bsdiff | imgdiff =>
    refine follow_makeTarget h ?_ hrun hallows hpieces
    simp [makesTarget, hverb]
  case stash => exact .inl (follow_stashBlocks h hverb hrun hallows)
  case free => exact .inl (follow_freeEntry h hverb hrun hleaves)

end Follow

/-! ## Following what a command left -/

section FollowAgain

variable {m₀ : Machine} (hlive : m₀.canWrite = true) (hsited : m₀.stash.Sited m₀.files place)

include hlive hsited

/-- Blocks that are stashed have an entry of their size. -/
theorem entrySize?_of_stashBlocks (hrun : outcome (stashBlocks P c) m₀ = (.ok (), m)) :
    ∃ id set, c.arg 0 = .ok id ∧ c.blockSet 1 = .ok set ∧
      m.stash.entrySize? m.files id = some set.byteLength := by
  obtain ⟨id, set, hid, hset, ⟨hsize, rfl⟩ | ⟨-, data, hread, -, -, hstorable, rfl⟩⟩ :=
    (stashBlocks_eq_ok hlive hsited).mp hrun
  · exact ⟨id, set, hid, hset, hsize⟩
  · refine ⟨id, set, hid, hset, (Stash.entrySize?_eq_some
      ((Machine.within_keeping c.Targets hstorable _ _).sited hsited)).mpr
      ⟨hstorable.isEntry, .inl ⟨data, ?_, BlockSet.size_of_read? (sound_of_blockSet hset) hread⟩⟩⟩
    show (Stash.stored _ _ _ _).get? _ = _
    rw [Stash.get?_stored, if_pos rfl]

/-- **To do a command twice makes no difference**, unless it takes new data. -/
theorem follow_again (hverb : c.verb ≠ .new) (hrun : outcome (c.run P) m₀ = (.ok (), m))
    (h : m.Follows slack place n) : Machine.Repeats (c.run P) (m.Follows slack place) n := by
  rw [run] at hrun ⊢
  cases hc : c.verb <;> rw [hc] at hrun <;> simp only at hrun ⊢
  case new => exact absurd hc hverb
  case abort | other => exact .inl ⟨n, rfl, h⟩
  case zero | erase =>
    obtain ⟨set, ws, -, -, rfl, hdoes⟩ := clear_eq_ok hlive hrun
    refine .of_does (hdoes n h.reads.discards h.live' h.allowFileErase) { h with
      reads := Device.SameReads.after_again (d := m₀.device) h.reads
      slack := ?_ }
    cases slack <;> exact h.slack
  case move | copy | bsdiff | imgdiff =>
    obtain ⟨r, hr, hdate⟩ := upToDate_of_makeTarget hlive hrun
    exact .inl ⟨n, makeTarget_of_upToDate hr (follow_upToDate h hdate), h⟩
  case stash =>
    obtain ⟨id, set, hid, hset, hsize⟩ := entrySize?_of_stashBlocks hlive hsited hrun
    exact .inl ⟨n, (stashBlocks_eq_ok h.live' h.sited').mpr
      ⟨id, set, hid, hset, .inl ⟨h.entrySize? hsize, rfl⟩⟩, h⟩
  case free =>
    obtain ⟨id, hid, -⟩ := (freeEntry_eq_ok hsited).mp hrun
    exact .inl ⟨n, (freeEntry_eq_ok h.sited').mpr ⟨id, hid, .inl ⟨h.resumed, rfl⟩⟩, h⟩

end FollowAgain

end Command

end BlockUpdate
