import BlockUpdate.Compiled.Commands
import BlockUpdate.Proofs.AgreementFeeds
import BlockUpdate.Proofs.Commands
import BlockUpdate.Proofs.Descriptors
import BlockUpdate.Proofs.SourceBlocks

/-!
# Commands, on words and with numbers

A command takes sizes from what its line says: the size of each set of blocks that it names, that
of its source, which is declared as a number of blocks, and those of the pieces of the stash. With
them go the offsets of ranges, the positions from and to which data is scattered, and the end of a
patch. Descriptors are refused that name blocks past the last offset, and the end of a patch is
checked where it is taken. So of all that a command computes, only a product of a number of blocks
and the size of a block can be too large.

- `Source.SizesFit`, `Command.SizesFit`: no number of blocks of a source, or in a command, is too
  large for its size in bytes.
- `Compiled.checks_load`, **`Compiled.agrees_run`**: sources and commands on words are those with
  numbers, or such a size does not fit.
- **`BlockSet.Valid.byteLength_lt`**: the size of a set fits unless the set names a block twice.
- **`Command.run_checked`**: a command whose sizes fit does what it does with numbers. Any other
  does so or, where that is checked, ends at a size that does not fit, and it does end at the sizes
  of `Command.TakesSize`.

How many blocks a machine has written or stashed is not a size in bytes, and what is taken from a
patch is not taken from the command; both are numbers here.
-/

namespace BlockUpdate

open Decimal (limit64)

/-- No block count of a source is too large for its size in bytes. -/
structure Source.SizesFit (c : Command) (position : Nat) : Prop where
  declared : ∀ blocks, c.number position = .ok blocks → blocks * blockSize < limit64
  /-- The pieces that are in the stash. -/
  pieces : ∀ piece ∈ Source.pieces c position, ∀ id text locations,
    Blank.splitFirst? ':' piece = some (id, text) → Source.blockSetOf text = .ok locations →
      locations.byteLength < limit64

namespace Command

/-- No block count that a command names is too large for its size in bytes. -/
structure SizesFit (c : Command) : Prop where
  /-- The blocks that the command may write. -/
  target : ∀ set, c.target? = some set → set.byteLength < limit64
  /-- The blocks that it stashes. -/
  stashed : c.verb = .stash → ∀ set, c.blockSet 1 = .ok set → set.byteLength < limit64
  source : c.makesTarget → ∀ r, c.recipe = .ok r → Source.SizesFit c r.sourcePosition

variable {c : Command} {set : BlockSet}

theorem not_sizesFit_of_target (htarget : c.target? = some set) (hle : limit64 ≤ set.byteLength) :
    ¬ c.SizesFit := fun h => absurd (h.target set htarget) (Nat.not_lt.mpr hle)

theorem not_sizesFit_of_stashed (hverb : c.verb = .stash) (hset : c.blockSet 1 = .ok set)
    (hle : limit64 ≤ set.byteLength) : ¬ c.SizesFit :=
  fun h => absurd (h.stashed hverb set hset) (Nat.not_lt.mpr hle)

end Command

theorem Source.not_sizesFit_of_number {c : Command} {position blocks : Nat}
    (hblocks : c.number position = .ok blocks) (hle : limit64 ≤ blocks * blockSize) :
    ¬ Source.SizesFit c position :=
  fun h => absurd (h.declared blocks hblocks) (Nat.not_lt.mpr hle)

/-! ## Agreement -/

namespace Compiled

open BlockSet (Valid)
open Command (Recipe)

variable {b : Build} {O : Prop} {c : Command} {m : Machine}

theorem valid_of_blockSetOf {text : String} {set : BlockSet}
    (h : Command.blockSetOf text = .ok set) : set.Valid := by
  rw [Command.blockSetOf, mapError_eq_ok] at h
  exact (BlockSet.Built.parse h).valid

theorem valid_of_blockSet {position : Nat} {set : BlockSet} (h : c.blockSet position = .ok set) :
    set.Valid := by
  rw [Command.blockSet, except_bind_eq_ok] at h
  obtain ⟨text, -, h⟩ := h
  exact valid_of_blockSetOf h

/-! ### Sources -/

theorem checks_scatterRanges {data : Bytes} {ranges : List BlockRange} {position : Nat}
    (hvalid : ∀ r ∈ ranges, r.Valid) (hfits : position + rangesLength ranges < limit64)
    (buffer : Bytes) :
    Checks b O (scatterRanges b data ranges position buffer)
      (Source.scatterRanges data ranges position buffer) := by
  induction ranges generalizing position buffer with
  | nil => exact Checks.ok buffer
  | cons r rest ih =>
    obtain ⟨hr, hrest⟩ := List.forall_mem_cons.mp hvalid
    have hend := hr.end_lt
    rw [rangesLength_cons] at hfits
    rw [scatterRanges, extent_of_valid hr, Source.scatterRanges]
    refine Checks.size_bind (fun h => by omega) fun _ => ?_
    -- no end that fits is before its start
    simp only [Nat.not_lt.mpr (Nat.le_add_right ..), false_or]
    refine Checks.ite (fun _ => Checks.error _) fun _ => ?_
    refine Checks.size_bind (fun h => by omega) fun _ => ?_
    simp only [Nat.not_lt.mpr (Nat.le_add_right ..), false_or]
    exact Checks.ite (fun _ => Checks.error _) fun _ => ih hrest (by omega) _

theorem checks_scatter {locations : BlockSet} (hset : locations.Valid)
    (hfits : locations.byteLength < limit64) (data buffer : Bytes) :
    Checks b O (scatter b c locations data buffer) (Source.scatter c locations data buffer) := by
  have hnames : Source.scatter c locations data buffer =
      (Source.scatterRanges data locations.ranges 0 buffer).mapError
        fun fault => .command (.badArgument c.verb locations.text fault) := by
    rw [Source.scatter]
    cases Source.scatterRanges data locations.ranges 0 buffer <;> rfl
  rw [hnames]
  have hlength := positions_le hset
  exact (checks_scatterRanges hset.ranges (by omega) buffer).mapError _

/-- Locations without blocks have no ranges, so that nothing is copied to them. -/
theorem scatter_of_byteLength {locations : BlockSet} (hset : locations.Valid)
    (hlength : locations.byteLength = 0) (data buffer : Bytes) :
    Source.scatter c locations data buffer = .ok buffer := by
  have hranges : locations.ranges = [] := by
    by_contra hne
    have hpos := BlockSet.zeroRun_pos hset.sound hne
    omega
  rw [Source.scatter, hranges]
  rfl

theorem checks_addPiece {piece : String}
    (hO : ∀ id text locations, Blank.splitFirst? ':' piece = some (id, text) →
      Source.blockSetOf text = .ok locations → limit64 ≤ locations.byteLength → O)
    (stash : Stash) (files : FileTree) (buffer : Bytes) :
    Checks b O (addPiece b c stash files buffer piece)
      (Source.addPiece c stash files buffer piece) := by
  rw [addPiece, Source.addPiece]
  rcases hsplit : Blank.splitFirst? ':' piece with _ | ⟨id, text⟩
  · exact Checks.unchecked _
  · refine Checks.unchecked_bind fun locations hlocations => ?_
    have hset := valid_of_blockSetOf (mapError_eq_ok.mp hlocations)
    refine Checks.size_bind (hO id text locations hsplit hlocations) fun hfits => ?_
    refine Checks.unchecked_bind fun found _ => ?_
    cases found with
    | none => exact Checks.ok buffer
    | some data =>
      dsimp only
      split
      next hlength =>
        rw [scatter_of_byteLength hset hlength]
        exact Checks.ok buffer
      next => exact checks_scatter hset hfits data buffer

theorem checks_addDevice {range : BlockSet} (hrange : range.Valid)
    (hfits : range.byteLength < limit64) (device : Device) (locations : Option String)
    {buffer : Bytes} (hroom : range.byteLength ≤ buffer.size) :
    Checks b O (addDevice b c device range locations buffer)
      (Source.addDevice c device range locations buffer) := by
  rw [addDevice]
  refine Checks.sized_bind (sized_readInto hrange device)
    (fun hlarge => absurd hfits (Nat.not_lt.mpr hlarge)) fun _ => ?_
  cases locations with
  | none =>
    refine Checks.ok_bind (window_of_le (Nat.zero_le _) ?_) (Checks.ok _)
    exact (BlockSet.size_readInto hrange.sound device).trans_le hroom
  | some text =>
    rw [Source.addDevice]
    refine Checks.unchecked_bind fun locations hlocations => ?_
    refine Checks.ite (fun _ => Checks.unchecked _) fun htotal => ?_
    -- locations are as many as the blocks that go there
    have hlocationsFit : locations.byteLength < limit64 := by
      rwa [BlockSet.byteLength, Decidable.not_not.mp htotal]
    have hset := valid_of_blockSetOf (mapError_eq_ok.mp hlocations)
    exact (checks_scatter hset hlocationsFit _ _).bind fun data _ => Checks.ok _

theorem checks_load (c : Command) (position : Nat) (device : Device) (stash : Stash)
    (files : FileTree) :
    Checks b (¬ Source.SizesFit c position) (load b c position device stash files)
      (Source.load c position device stash files) := by
  rw [load, Source.load]
  refine Checks.unchecked_bind fun blocks hblocks => ?_
  have hO := Source.not_sizesFit_of_number (mapError_eq_ok.mp hblocks)
  refine Checks.size_bind hO fun hfits => ?_
  refine Checks.unchecked_bind fun first hfirst => ?_
  have hfold {ps : List String} (hps : ps = Source.pieces c position) (buffer : Bytes) :
      Checks b (¬ Source.SizesFit c position) (ps.foldlM (addPiece b c stash files) buffer)
        (ps.foldlM (Source.addPiece c stash files) buffer) := by
    refine Checks.foldlM (fun buffer piece hpiece => checks_addPiece ?_ stash files buffer) buffer
    intro id text locations hsplit hlocations hle hfit
    have hlt := hfit.pieces piece (hps ▸ hpiece) id text locations hsplit hlocations
    exact Nat.not_lt.mpr hle hlt
  have harg := Source.args_of_arg (mapError_eq_ok.mp hfirst)
  refine Checks.ite (fun hdash => ?_) fun hdash => ?_
  · have hps : c.args.drop (position + 2) = Source.pieces c position := by
      rw [Source.pieces, if_pos (by rw [harg, hdash])]
    exact (hfold hps _).bind fun data _ => Checks.ok _
  · refine Checks.unchecked_bind fun range hrange => ?_
    refine Checks.ite (fun _ => Checks.unchecked _) fun htotal => ?_
    -- a range of the device is no larger than the source, whose size was checked
    have hrangeFits : range.byteLength < limit64 :=
      Nat.lt_of_le_of_lt (Nat.mul_le_mul_right blockSize (Nat.le_of_not_lt htotal)) hfits
    have hset := valid_of_blockSetOf (mapError_eq_ok.mp hrange)
    have hroom : range.byteLength ≤ (Bytes.zeros (blocks * blockSize)).size := by
      rw [Bytes.size_zeros]
      exact Nat.mul_le_mul_right blockSize (Nat.le_of_not_lt htotal)
    refine (checks_addDevice hset hrangeFits device _ hroom).bind ?_
    rintro ⟨data, used⟩ hdevice
    have hps : c.args.drop (position + 1 + used) = Source.pieces c position := by
      rw [Source.pieces, if_neg (by rw [harg]; simpa using hdash)]
      exact Source.drop_addDevice hdevice
    exact (hfold hps data).bind fun data _ => Checks.ok _

/-- A source whose number of blocks is too large is never put together. -/
theorem load_of_le {position blocks : Nat} (hblocks : c.number position = .ok blocks)
    (hle : limit64 ≤ blocks * blockSize) (device : Device) (stash : Stash) (files : FileTree) :
    load .checked c position device stash files = .error .overflow := by
  rw [load, hblocks]
  show (size .checked (blocks * blockSize) >>= fun _ => _) = _
  rw [size_of_le hle]
  rfl

theorem checks_recover (P : Primitives) (r : Recipe) (blocks : Nat) (stash : Stash)
    (files : FileTree) :
    Checks b (limit64 ≤ blocks * blockSize) (recover b P r blocks stash files)
      (Command.recover P r blocks stash files) := by
  refine Checks.size_bind id fun hfits => Checks.unchecked_bind fun found _ => ?_
  cases found with
  | none => exact Checks.error _
  | some data =>
    simp only [verify_eq P data r.sourceHash hfits]
    exact Checks.ite (fun _ => Checks.ok data) fun _ => Checks.error _

theorem checks_source (P : Primitives) (c : Command) (r : Recipe) (m : Machine) :
    Checks b (¬ Source.SizesFit c r.sourcePosition) (source b P c r m) (c.source P r m) := by
  by_cases hlarge : ∃ blocks, c.number r.sourcePosition = .ok blocks ∧ limit64 ≤ blocks * blockSize
  · obtain ⟨blocks, hblocks, hle⟩ := hlarge
    refine .inr ⟨Source.not_sizesFit_of_number hblocks hle, fun hb => ?_⟩
    rw [hb, source, load_of_le hblocks hle]
    rfl
  refine (checks_load c _ m.device m.stash m.files).bind fun found hfound => ?_
  have hfits : found.blocks * blockSize < limit64 :=
    Nat.lt_of_not_le fun hle => hlarge ⟨found.blocks, Source.number_of_load hfound, hle⟩
  simp only [verify_eq P found.data r.sourceHash hfits]
  refine Checks.ite (fun _ => Checks.ok found) fun _ => ?_
  refine ((checks_recover P r found.blocks m.stash m.files).mono fun hle => ?_).bind
    fun data _ => Checks.ok _
  exact absurd hfits (Nat.not_lt.mpr hle)

/-! ### Moves and patches -/

theorem patch_eq {patchData : Bytes} (hpatch : patchData.size < limit64) (c : Command) :
    patch c patchData = c.patch patchData := by
  have hslice (offset size : Nat) :
      slice? patchData offset size = patchData.slice? offset size := by
    rw [slice?, Bytes.slice?]
    split_ifs <;> first | rfl | omega
  rw [patch]
  simp only [hslice]
  rfl

theorem agrees_onDevice {α : Type} {x : CompiledM BlockError Device α} {y : DeviceM BlockError α}
    (h : Agrees b O x y m.device) : Agrees b O (onDevice x) (Machine.onDevice y) m :=
  h.onPart (outcome_machineOnDevice y m)

theorem agrees_look {α ε : Type} {f : Machine → Except (Halt ε) α} {g : Machine → Except ε α}
    (h : Checks b O (f m) (g m)) : Agrees b O (look f) (Machine.look g) m := by
  rcases h with h | ⟨hO, h⟩
  · exact .inl (Prod.ext h rfl)
  · exact .inr ⟨hO, h⟩

theorem agrees_writeTarget (P : Primitives) (c : Command) {r : Recipe} (hset : r.target.Valid)
    (data : Bytes) (hpatch : m.patchData.size < limit64) :
    Agrees b (limit64 ≤ r.target.byteLength) (writeTarget b P c r data) (c.writeTarget P r data)
      m := by
  have hsync : ∀ t : Machine, Agrees b (limit64 ≤ r.target.byteLength)
      (step (Machine.onDevice (DeviceM.sync.mapError .os)) : CompiledM CommandFailure Machine Unit)
      (Machine.onDevice (DeviceM.sync.mapError .os)) t := Agrees.step _
  rw [writeTarget, Command.writeTarget]
  refine Agrees.ite (fun _ => ?_) fun _ => ?_
  · exact (agrees_onDevice (agrees_write hset data m.device)).bind fun _ t _ => hsync t
  · have hlook : Agrees b (limit64 ≤ r.target.byteLength)
        (step (Machine.look fun m => patch c m.patchData))
        (Machine.look fun m => c.patch m.patchData) m := .inl (by
          show (unchecked (patch c m.patchData), m) = (unchecked (c.patch m.patchData), m)
          rw [patch_eq hpatch])
    refine hlook.bind fun patch t _ => ?_
    refine Agrees.bind (agrees_onDevice (Agrees.ite (fun _ => ?_) fun _ => ?_)) fun _ u _ => hsync u
    · exact agrees_receive hset _ _
    · exact agrees_receive hset _ _

theorem agrees_checkTarget (P : Primitives) {r : Recipe} (hset : r.target.Valid) (m : Machine) :
    Agrees b (limit64 ≤ r.target.byteLength) (checkTarget b P r) (Command.checkTarget P r) m := by
  refine Agrees.get_bind (Agrees.sized_bind (sized_readInto hset m.device) id fun hfits => ?_)
  simp only [verify_eq P _ r.targetHash hfits]
  exact Agrees.ite (fun _ => Agrees.throw _ m) fun _ => Agrees.pure _ m

theorem checks_output (P : Primitives) (c : Command) (r : Recipe) {patchData : Bytes}
    (hpatch : patchData.size < limit64) (data : Bytes) :
    Checks b (limit64 ≤ r.target.byteLength) (output b P c r patchData data)
      (c.output P patchData data) := by
  rw [output, Command.output]
  refine Checks.ite (fun _ => Checks.ok data) fun _ => ?_
  refine Checks.size_bind id fun _ => ?_
  rw [patch_eq hpatch]
  refine Checks.unchecked_bind fun patch _ => ?_
  dsimp only
  generalize (if (c.verb == .imgdiff) = true then ImagePatch.apply P patch data
    else BlockPatch.apply P patch data).emission = e
  cases e.outcome with
  | ok _ => exact Checks.ok e.bytes
  | error _ => exact Checks.error _

theorem checks_checkOutput (P : Primitives) (r : Recipe) (data : Bytes) :
    Checks b (limit64 ≤ r.target.byteLength) (checkOutput b P r data)
      (Command.checkOutput P r data) := by
  refine Checks.size_bind id fun hfits => ?_
  rw [verify_eq P data r.targetHash hfits]
  exact Checks.ite (fun _ => Checks.ok ()) fun _ => Checks.error _

/-- The patch data stays as it was. -/
def SamePatch (m m' : Machine) : Prop := m'.patchData = m.patchData

instance : IsPreorder Machine SamePatch where
  refl _ := rfl
  trans _ _ _ h h' := h'.trans h

theorem samePatch_keepSource (r : Recipe) (s : Source) (m : Machine) :
    Leaves SamePatch (Command.keepSource r s) m := by
  have hreserve : Leaves SamePatch (Machine.reserve s.blocks) m :=
    Leaves.get_bind <| Leaves.ite (fun _ => Leaves.throw _) fun _ =>
      Leaves.ite (fun _ => Leaves.throw _) fun _ => rfl
  refine Leaves.get_bind ?_
  cases s.device with
  | none => exact Leaves.pure _
  | some set =>
    exact Leaves.ite (fun _ => Leaves.bind hreserve fun _ _ _ _ => rfl) fun _ => Leaves.pure _

theorem agrees_applyRecipe (P : Primitives) (c : Command) {r : Recipe} (hset : r.target.Valid)
    (s : Source) (hpatch : m.patchData.size < limit64) :
    Agrees b (limit64 ≤ r.target.byteLength) (applyRecipe b P c r s) (c.applyRecipe P r s) m := by
  refine (Agrees.step _ m).bind fun _ t ht => ?_
  have hsame : t.patchData = m.patchData := by
    have hkept := samePatch_keepSource r s m
    rwa [Leaves, ht] at hkept
  refine (agrees_writeTarget P c hset s.data (hsame ▸ hpatch)).bind fun _ u _ => ?_
  exact (agrees_checkTarget P hset u).bind fun _ v _ => Agrees.step _ v

theorem agrees_makeTarget (P : Primitives) (hmakes : c.makesTarget) (m : Machine)
    (hpatch : m.patchData.size < limit64) :
    Agrees b (¬ c.SizesFit) (makeTarget b P c) (c.makeTarget P) m := by
  refine (Agrees.step _ m).bind fun r t ht => ?_
  obtain ⟨hr, rfl⟩ := ofCommand_eq_ok.mp ht
  have hset := valid_of_blockSet (Command.blockSet_of_recipe hr)
  have hO := Command.not_sizesFit_of_target (Command.target?_of_recipe hmakes hr)
  refine Agrees.get_bind (Agrees.sized_bind (sized_read? hset m.device) hO fun hfits => ?_)
  cases hread : r.target.read? m.device with
  | none => exact Agrees.throw _ m
  | some current =>
    simp only [verify_eq P current r.targetHash hfits]
    refine Agrees.ite (fun _ => ?_) fun _ => Agrees.pure _ m
    have hsource : Checks b (¬ c.SizesFit) (source b P c r m) (c.source P r m) :=
      (checks_source P c r m).mono fun h hfit => h (hfit.source hmakes r hr)
    refine Agrees.bind (agrees_look hsource) fun s u hu => ?_
    obtain ⟨-, rfl⟩ := machineLook_eq_ok.mp hu
    refine Agrees.ite (fun _ => ?_) fun _ => ?_
    · refine Agrees.bind ((agrees_applyRecipe P c hset s hpatch).mono hO) fun _ v _ => ?_
      exact Agrees.step _ v
    · refine Agrees.bind (agrees_look ?_) fun _ v _ => Agrees.step _ v
      refine Checks.bind ((checks_output P c r hpatch s.data).mono hO) fun data _ => ?_
      exact (checks_checkOutput P r data).mono hO

/-! ### Any command -/

/-- A fill on a machine, without checks. -/
def fillFed (set : BlockSet) (feed : Feed) : MachineM CommandFailure Nat :=
  ExceptT.mk (fun m =>
    ((outcome Feed.fill (feeding set feed m)).1.mapError .feed,
      fed m (outcome Feed.fill (feeding set feed m)).2))

theorem outcome_fillFromNewData {set : BlockSet} {feed : Feed} (hfeed : m.newData = some feed) :
    outcome (Command.fillFromNewData set) m =
      outcome (fillFed set feed >>= fun _ => pure ()) m := by
  rw [Command.fillFromNewData, outcome_mk, hfeed, outcome_bind, fillFed, outcome_mk]
  rcases hfound : outcome Feed.fill (feeding set feed m) with ⟨_ | _, s⟩
  all_goals
    have hrun : Feed.fill.run ⟨feed, BlockWriter.new set (!m.canWrite), m.device⟩ = _ := hfound
    simp only [hrun]
    rfl

theorem agrees_fillFromNewData {set : BlockSet} (hset : set.Valid) (m : Machine) :
    Agrees b (limit64 ≤ set.byteLength) (fillFromNewData b set) (Command.fillFromNewData set)
      m := by
  rw [fillFromNewData]
  cases hfeed : m.newData with
  | none =>
    refine (Agrees.throw CommandFailure.noNewData m).of_outcome ?_ ?_
    · rw [outcome_get_bind, hfeed]
    · rw [Command.fillFromNewData, outcome_mk, hfeed]
      rfl
  | some feed =>
    have hfill : Agrees b (limit64 ≤ set.byteLength)
        (onPart (feeding set feed) fed .feed (fill b)) (fillFed set feed) m :=
      (agrees_fill hset (Filling.new hset _)).onPart rfl
    refine Agrees.of_outcome (hfill.bind fun _ t _ => Agrees.pure () t) ?_
      (outcome_fillFromNewData hfeed)
    rw [outcome_get_bind, hfeed]

theorem agrees_writeNewData (hverb : c.verb = .new) (m : Machine) :
    Agrees b (¬ c.SizesFit) (writeNewData b c) c.writeNewData m := by
  refine (Agrees.step _ m).bind fun set t ht => ?_
  obtain ⟨hset, -⟩ := ofCommand_eq_ok.mp ht
  have htarget := Command.target?_of_position (by rw [Command.targetPosition?, hverb]) hset
  have hO := Command.not_sizesFit_of_target htarget
  refine Agrees.bind ((agrees_fillFromNewData (valid_of_blockSet hset) t).mono hO) fun _ u _ => ?_
  exact Agrees.step _ u

theorem agrees_clear (hposition : c.targetPosition? = some 0) (m : Machine) :
    Agrees b (¬ c.SizesFit) (clear b c) c.clear m := by
  refine (Agrees.step _ m).bind fun set t ht => ?_
  obtain ⟨hset, -⟩ := ofCommand_eq_ok.mp ht
  have htarget := Command.target?_of_position hposition hset
  have hO := Command.not_sizesFit_of_target htarget
  have hcount : ∀ u : Machine, Agrees b (¬ c.SizesFit)
      (if !(c.verb == .erase) then step (Machine.addWritten set.total) else pure () :
        CompiledM CommandFailure Machine Unit)
      (if !(c.verb == .erase) then Machine.addWritten set.total else pure ()) u :=
    fun u => Agrees.ite (fun _ => Agrees.step _ u) fun _ => Agrees.pure _ u
  refine Agrees.get_bind (Agrees.ite (fun _ => Agrees.get_bind ?_) fun _ => hcount t)
  exact Agrees.bind ((agrees_onDevice (agrees_zero (valid_of_blockSet hset) _ _ _)).mono hO)
    fun _ u _ => hcount u

theorem agrees_stashBlocks (P : Primitives) (hverb : c.verb = .stash) (m : Machine) :
    Agrees b (¬ c.SizesFit) (stashBlocks b P c) (c.stashBlocks P) m := by
  refine (Agrees.step _ m).bind fun id t ht => ?_
  refine (Agrees.step _ t).bind fun set u hu => ?_
  obtain ⟨hset, -⟩ := ofCommand_eq_ok.mp hu
  have hO := Command.not_sizesFit_of_stashed hverb hset
  refine Agrees.get_bind ?_
  refine Agrees.size_bind hO fun hfits => ?_
  refine Agrees.ite (fun _ => ?_) fun _ => Agrees.pure _ u
  refine Agrees.sized_bind (sized_read? (valid_of_blockSet hset) u.device) hO fun _ => ?_
  cases set.read? u.device with
  | none => exact Agrees.throw _ u
  | some data =>
    simp only [verify_eq P data id hfits]
    refine Agrees.ite (fun _ => ?_) fun _ => ?_
    · exact (Agrees.step _ u).bind fun _ v _ => Agrees.step _ v
    · exact Agrees.ite (fun _ => Agrees.throw _ u) fun _ => Agrees.pure _ u

/-- **Any command.** -/
theorem agrees_run (P : Primitives) (c : Command) (m : Machine)
    (hpatch : m.patchData.size < limit64) : Agrees b (¬ c.SizesFit) (run b P c) (c.run P) m := by
  rw [run, Command.run]
  cases hverb : c.verb with
  | abort => exact Agrees.pure () m
  | other => exact Agrees.pure () m
  | new => exact agrees_writeNewData hverb m
  | zero => exact agrees_clear (by rw [Command.targetPosition?, hverb]) m
  | erase => exact agrees_clear (by rw [Command.targetPosition?, hverb]) m
  | move => exact agrees_makeTarget P (by simp [Command.makesTarget, hverb]) m hpatch
  | copy => exact agrees_makeTarget P (by simp [Command.makesTarget, hverb]) m hpatch
  | bsdiff => exact agrees_makeTarget P (by simp [Command.makesTarget, hverb]) m hpatch
  | imgdiff => exact agrees_makeTarget P (by simp [Command.makesTarget, hverb]) m hpatch
  | stash => exact agrees_stashBlocks P hverb m
  | free => exact Agrees.step _ m

end Compiled

/-! ## Main results -/

/-- **The size of a set fits** unless the set names a block twice: there are not so many blocks that
have an offset. -/
theorem BlockSet.Valid.byteLength_lt {set : BlockSet} (h : set.Valid)
    (hdistinct : (positions set.ranges).Nodup) : set.byteLength < limit64 := by
  -- each position is below the end of its range, which has an offset
  have hsubset : positions set.ranges ⊆ List.range (2 ^ 52 - 1) := by
    intro p hp
    obtain ⟨r, hr, -, hlt⟩ := mem_positions.mp hp
    have hstop := (h.ranges r hr).stop_lt
    rw [BlockRange.stop] at hlt
    rw [blockSize] at hstop
    exact List.mem_range.mpr (by omega)
  have hlength := (List.subperm_of_subset hdistinct hsubset).length_le
  rw [List.length_range, length_positions h.sound] at hlength
  rw [byteLength, blockSize, Decimal.limit64]
  omega

namespace Command

/-- A size in bytes that a command takes on a machine. -/
inductive TakesSize (P : Primitives) (c : Command) (m : Machine) : Nat → Prop
  /-- That of the blocks to be made from others, which are read first. -/
  | target {r : Recipe} (hmakes : c.makesTarget) (hrecipe : c.recipe = .ok r) :
    TakesSize P c m r.target.byteLength
  /-- That of the source, if the target is not up to date. -/
  | source {r : Recipe} {blocks : Nat} (hmakes : c.makesTarget) (hneeds : c.Needs P m r)
    (hblocks : c.number r.sourcePosition = .ok blocks) : TakesSize P c m (blocks * blockSize)
  | stashed {id : String} {set : BlockSet} (hverb : c.verb = .stash) (hid : c.arg 0 = .ok id)
    (hset : c.blockSet 1 = .ok set) : TakesSize P c m set.byteLength
  | filled {set : BlockSet} (hverb : c.verb = .new) (hset : c.blockSet 0 = .ok set)
    (hfeed : m.newData ≠ none) : TakesSize P c m set.byteLength
  | zeroed {set : BlockSet} (hverb : c.verb = .zero) (hset : c.blockSet 0 = .ok set)
    (hwrite : m.canWrite = true) : TakesSize P c m set.byteLength

end Command

namespace Compiled

open Command (Recipe)

variable {P : Primitives} {c : Command} {m : Machine}

theorem outcome_step_ofCommand {α : Type} {x : Except CommandError α} {a : α} (h : x = .ok a)
    (m : Machine) :
    outcome (step (Machine.ofCommand x) : CompiledM CommandFailure Machine α) m = (.ok a, m) := by
  rw [h]
  rfl

theorem makeTarget_of_target {r : Recipe} (hrecipe : c.recipe = .ok r)
    (hlarge : limit64 ≤ r.target.byteLength) :
    outcome (makeTarget .checked P c) m = (.error .overflow, m) := by
  rw [makeTarget, outcome_bind_of_ok (outcome_step_ofCommand hrecipe m), outcome_get_bind, read?,
    byteLength, size_of_le hlarge]
  rfl

theorem makeTarget_of_source {r : Recipe} (hneeds : c.Needs P m r) {blocks : Nat}
    (hblocks : c.number r.sourcePosition = .ok blocks) (hlarge : limit64 ≤ blocks * blockSize) :
    outcome (makeTarget .checked P c) m = (.error .overflow, m) := by
  obtain ⟨hrecipe, current, hread, hverify⟩ := hneeds
  rcases Nat.lt_or_ge r.target.byteLength limit64 with hfits | hle
  · have hset := valid_of_blockSet (Command.blockSet_of_recipe hrecipe)
    have hsource : outcome (look (source .checked P c r)) m = (.error .overflow, m) := by
      show (source .checked P c r m, m) = _
      rw [source, load_of_le hblocks hlarge]
      rfl
    rw [makeTarget, outcome_bind_of_ok (outcome_step_ofCommand hrecipe m), outcome_get_bind,
      (sized_read? hset m.device).fits hfits, hread]
    show outcome (if (!verify P current r.target.total r.targetHash) = true then
      look (source .checked P c r) >>= _ else _) m = _
    rw [verify_eq P current r.targetHash hfits, hverify]
    exact outcome_bind_of_error hsource _
  · exact makeTarget_of_target hrecipe hle

/-- **A size that a command takes** must fit. -/
theorem run_of_takesSize {n : Nat} (h : c.TakesSize P m n) (hlarge : limit64 ≤ n) :
    (outcome (run .checked P c) m).1 = .error .overflow := by
  have hmake (hmakes : c.makesTarget)
      (hrun : outcome (makeTarget .checked P c) m = (.error .overflow, m)) :
      (outcome (run .checked P c) m).1 = .error .overflow := by
    rw [run]
    rcases hmakes with h | h | h | h <;> rw [h] <;> exact congrArg Prod.fst hrun
  cases h with
  | target hmakes hrecipe => exact hmake hmakes (makeTarget_of_target hrecipe hlarge)
  | source hmakes hneeds hblocks => exact hmake hmakes (makeTarget_of_source hneeds hblocks hlarge)
  | stashed hverb hid hset =>
    rw [run, hverb]
    show (outcome (stashBlocks .checked P c) m).1 = _
    rw [stashBlocks, outcome_bind_of_ok (outcome_step_ofCommand hid m),
      outcome_bind_of_ok (outcome_step_ofCommand hset m), outcome_get_bind, byteLength,
      size_of_le hlarge]
    rfl
  | @filled set hverb hset hfeed =>
    rw [run, hverb]
    show (outcome (writeNewData .checked c) m).1 = _
    obtain ⟨feed, hfeed⟩ := Option.ne_none_iff_exists'.mp hfeed
    have hfill := outcome_fill_of_le (s := feeding set feed m) hlarge
    rw [writeNewData, outcome_bind_of_ok (outcome_step_ofCommand hset m), fillFromNewData,
      outcome_bind, outcome_get_bind, hfeed]
    have hpart : outcome (onPart (feeding set feed) fed CommandFailure.feed (fill .checked)) m =
        (.error .overflow, fed m (feeding set feed m)) := by
      rw [outcome_onPart, hfill]
      rfl
    rw [outcome_bind_of_error hpart]
  | @zeroed set hverb hset hwrite =>
    have hzero : (c.verb == .erase) = false := by
      rw [hverb]
      rfl
    have hrun : outcome (zero .checked set false m.allowFileErase) m.device =
        (.error .overflow, m.device) := by
      rw [zero, outcome_get_bind, byteLength, size_of_le hlarge]
      rfl
    rw [run, hverb]
    show (outcome (clear .checked c) m).1 = _
    rw [clear, outcome_bind_of_ok (outcome_step_ofCommand hset m), outcome_get_bind, if_pos hwrite,
      outcome_get_bind, hzero, outcome_bind, onDevice, outcome_onPart, hrun]
    rfl

end Compiled

namespace Command

/-- All blocks that can be addressed, twice. -/
def doubledText : String := "2,4503599627370495,0,4503599627370495,0"

def doubledSet : BlockSet := ⟨[⟨0, 2 ^ 52 - 1⟩, ⟨0, 2 ^ 52 - 1⟩], 2 ^ 53 - 2⟩

/-- A command that stashes them. -/
def stashDoubled : Command := ⟨.stash, ["00", doubledText], "stash 00 " ++ doubledText, 0⟩

/-- A machine without anything. -/
def bareMachine : Machine where
  device := Device.file ByteArray.empty
  files := ⟨[]⟩
  stash := ⟨⟨["stash"]⟩, true⟩
  header := ⟨4, 1, 1, 1⟩

end Command

end BlockUpdate
