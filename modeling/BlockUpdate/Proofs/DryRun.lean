import BlockUpdate.Proofs.Confinement
import BlockUpdate.Proofs.PatchErrors
import BlockUpdate.Proofs.Streaming
import BlockUpdate.Proofs.TornWrite

/-!
# A dry run

A dry run makes the target of a move or a patch in memory and looks at its size and digest. A real
run keeps the source if it is about to overwrite it, streams the target onto the device and reads it
back.

- `Checksum.entry_of_verify`: what has the name of a source can be stashed under it.
- **`Command.writes`**: a real run puts what the dry run looks at on the device, or fails as it does.
- **`Command.execute_dry`**: the result of both is the same, if no directory is in the way of the
  stashed source.
-/

namespace BlockUpdate

/-! ## Names of entries -/

namespace Hex

/-- A letter that is a digit in lowercase is a letter or digit. -/
theorem isAlphanum_of_toLower {ch : Char} {n : Nat} (hn : n < 16) (h : ch.toLower = digit n) :
    ch.isAlphanum = true ∧ ch.utf8Size = 1 := by
  have hdigit : ∀ {n : Nat}, n < 16 → (digit n).isAlphanum = true ∧ (digit n).utf8Size = 1 := by
    decide
  by_cases hupper : ch.val ≥ 'A'.val ∧ ch.val ≤ 'Z'.val
  · refine ⟨?_, Char.utf8Size_eq_one_iff.mpr (UInt32.le_trans hupper.2 (by decide))⟩
    have halpha : ch.isAlpha = true := (Bool.or_eq_true _ _).mpr (.inl (decide_eq_true hupper))
    exact (Bool.or_eq_true _ _).mpr (.inl halpha)
  · have hsame : ch.toLower = ch := dif_neg hupper
    rw [← hsame, h]
    exact hdigit hn

/-- Where the digits of a byte string come from. -/
theorem mem_encode {b : Bytes} {ch : Char} (h : ch ∈ (encode b).toList) : ∃ n < 16, ch = digit n := by
  rw [encode, String.toList_ofList, List.mem_flatMap] at h
  obtain ⟨byte, -, h⟩ := h
  have hbyte := byte.toNat_lt
  simp only [byteDigits, List.mem_cons, List.not_mem_nil, or_false] at h
  rcases h with rfl | rfl
  · exact ⟨_, by omega, rfl⟩
  · exact ⟨_, by omega, rfl⟩

theorem length_encode (b : Bytes) : (encode b).toList.length = 2 * b.size := by
  have hlist : ∀ bytes : List UInt8, (bytes.flatMap byteDigits).length = 2 * bytes.length := by
    intro bytes
    induction bytes with
    | nil => rfl
    | cons byte rest ih =>
      rw [List.flatMap_cons, List.length_append, ih, List.length_cons]
      show 2 + _ = _
      omega
  rw [encode, String.toList_ofList, hlist]
  rfl

end Hex

/-- The size of a text of one-byte characters. -/
theorem utf8ByteSize_of_forall {text : String} (h : ∀ ch ∈ text.toList, ch.utf8Size = 1) :
    text.utf8ByteSize = text.toList.length := by
  rw [← String.ofList_toList (s := text)] at h ⊢
  generalize text.toList = chars at h ⊢
  rw [String.toList_ofList] at h ⊢
  induction chars with
  | nil => rfl
  | cons ch rest ih =>
    rw [String.ofList_cons, String.utf8ByteSize_append, String.utf8ByteSize_singleton,
      h ch List.mem_cons_self, ih fun q hq => h q (List.mem_cons_of_mem ch hq), List.length_cons,
      Nat.add_comm]

namespace Checksum

variable {P : Primitives} {data : Bytes} {blocks : Nat} {id : String}

/-- **A name that passes a check can be that of an entry**, unless digests are long. -/
theorem entry_of_verify (h : verify P data blocks id = true)
    (hsize : (P.sha256 (data.takeFirst (blocks * blockSize))).size ≤ 32) :
    Stash.validId id = true ∧ (Stash.temporaryName id).utf8ByteSize ≤ FileTree.maxName := by
  have hname := congrArg String.toList (lowerAscii_eq_of_verify h)
  rw [Hex.lowerAscii, String.toList_map] at hname
  have hchars : ∀ ch ∈ id.toList, ch.isAlphanum = true ∧ ch.utf8Size = 1 := by
    intro ch hch
    have hlower : ch.toLower ∈ (text P (data.takeFirst (blocks * blockSize))).toList := by
      rw [hname]
      exact List.mem_map_of_mem hch
    obtain ⟨n, hn, hdigit⟩ := Hex.mem_encode hlower
    exact Hex.isAlphanum_of_toLower hn hdigit
  have hlength := congrArg List.length hname
  rw [text, Hex.length_encode, List.length_map] at hlength
  constructor
  · simp only [verify, Bool.and_eq_true] at h
    rw [Stash.validId, h.1.1, Bool.true_and, List.all_eq_true]
    exact fun ch hch => (hchars ch hch).1
  · rw [Stash.temporaryName, String.utf8ByteSize_append, String.utf8ByteSize_append,
      utf8ByteSize_of_forall fun ch hch => (hchars ch hch).2, ← hlength]
    have hends : (".".utf8ByteSize) = 1 ∧ (".partial".utf8ByteSize) = 8 := by decide
    have hmax : FileTree.maxName = 255 := rfl
    omega

end Checksum

namespace BlockSet

/-- A set that can be read lies within the image. -/
theorem within_of_read? {set : BlockSet} {d : Device} (hset : set.Sound) (hd : d.endless = false)
    {data : Bytes} (h : set.read? d = some data) : Within set.ranges d.image.size := by
  intro r hr
  have hlength := BlockRange.byteLength_pos (hset.nonempty r hr)
  have hlast := lt_size_of_read? hd h (i := r.byteStart + r.byteLength - 1)
    ⟨r, hr, by omega, by omega⟩
  omega

end BlockSet

namespace Command

variable {P : Primitives} {c : Command} {place : Place} {m m' m₁ : Machine} {r : Recipe}
  {s : Source} {data : Bytes}

/-! ## What a dry run looks at -/

/-- What a patch puts out. -/
def patched (P : Primitives) (c : Command) (patch data : Bytes) : Emission Nat :=
  (if c.verb == .imgdiff then ImagePatch.apply P patch data
    else BlockPatch.apply P patch data).emission

theorem ownErrors_patched (P : Primitives) (c : Command) (patch data : Bytes) :
    OwnErrors (patched P c patch data).outcome := by
  rw [patched]
  split
  · exact (ImagePatch.ownErrors_apply P patch data).emission
  · exact (BlockPatch.ownErrors_apply P patch data).emission

theorem output_of_move (hmove : c.isMove = true) (patchData : Bytes) :
    c.output P patchData data = .ok data := by
  rw [output, if_pos hmove]
  rfl

section Patch

variable {patchData patch : Bytes} (hmove : ¬ c.isMove = true)
  (hpatch : c.patch patchData = .ok patch)

include hmove hpatch

theorem output_of_ok {n : Nat} (h : (patched P c patch data).outcome = .ok n) :
    c.output P patchData data = .ok (patched P c patch data).bytes := by
  rw [patched] at h ⊢
  simp only [output, if_neg hmove, hpatch, bind, Except.bind, h]
  rfl

theorem output_of_error {e : PatchError} (h : (patched P c patch data).outcome = .error e) :
    c.output P patchData data = .error (.patch e) := by
  rw [patched] at h
  simp only [output, if_neg hmove, hpatch, bind, Except.bind, h]
  rfl

end Patch

/-- An output of another size is refused. -/
theorem rehearse_of_size_ne {patchData out : Bytes} (hout : c.output P patchData data = .ok out)
    (hsize : out.size ≠ r.target.byteLength) : resultOf (rehearse P c r patchData data) = .failed := by
  rw [rehearse, hout]
  show resultOf (checkOutput P r out) = _
  rw [checkOutput, if_neg fun h => hsize h.1]
  rfl

/-- A dry run that fails as a patch does. -/
theorem rehearse_of_error {patchData : Bytes} {e : CommandFailure}
    (hout : c.output P patchData data = .error e) :
    resultOf (rehearse P c r patchData data) = resultOf (.error e) := by
  rw [rehearse, hout]
  rfl

/-! ## What a real run writes -/

theorem outcome_sync {d : Device} (hd : d.Healthy) (m : Machine) :
    outcome (Machine.onDevice (DeviceM.sync.mapError BlockError.os)) { m with device := d } =
      (.ok (), { m with device := d }) := by
  refine machineOnDevice_eq_ok.mpr ⟨d, ?_, rfl⟩
  rw [outcome_deviceMapError]
  show ((d.sync).mapError BlockError.os, d) = _
  rw [Device.sync, hd.1]
  rfl

/-- What the writes of a command lead to: the output is on the device, or the command fails in the
way that a dry run does. -/
def Writes (P : Primitives) (c : Command) (r : Recipe) (data : Bytes) (m : Machine) : Prop :=
  (∃ out d', c.output P m.patchData data = .ok out ∧ r.target.byteLength ≤ out.size ∧
      (c.isMove = true ∨ out.size = r.target.byteLength) ∧
      outcome (writeTarget P c r data) m = (.ok (), { m with device := d' }) ∧ d'.Healthy ∧
      d'.image = BlockSet.laid r.target.ranges 0 out m.device.image) ∨
  ∃ e m', outcome (writeTarget P c r data) m = (.error e, m') ∧
    resultOf (rehearse P c r m.patchData data) = resultOf (.error e)

section Writes

variable (hset : r.target.Sound) (hd : m.device.Healthy)
  (hin : BlockSet.Within r.target.ranges m.device.image.size)
  (hlimit : m.device.image.size ≤ Device.offsetLimit)

include hset hd hin hlimit

theorem writes_of_move (hmove : c.isMove = true) : Writes P c r data m := by
  have hwrite : outcome (writeTarget P c r data) m =
      outcome (Machine.onDevice (r.target.write data) >>= fun _ =>
        Machine.onDevice (DeviceM.sync.mapError .os)) m := by
    rw [writeTarget, if_pos hmove]
  by_cases hsize : r.target.byteLength ≤ data.size
  · obtain ⟨n, d', hrun, hd', himage⟩ := BlockSet.write_laid hset hd hin hlimit hsize
    refine .inl ⟨data, d', output_of_move hmove _, hsize, .inl hmove, ?_, hd', himage⟩
    rw [hwrite, outcome_bind_of_ok (machineOnDevice_eq_ok.mpr ⟨d', hrun, rfl⟩), outcome_sync hd']
  · have hshort : outcome (Machine.onDevice (r.target.write data)) m =
        (.error (.block (.shortBuffer r.target.byteLength data.size)), m) := by
      rw [outcome_machineOnDevice, BlockSet.write, BlockSet.checkBuffer, if_pos (by omega)]
      rfl
    refine .inr ⟨_, m, by rw [hwrite, outcome_bind_of_error hshort], ?_⟩
    exact rehearse_of_size_ne (output_of_move hmove _) (by omega)

theorem writes_of_patch (hmove : ¬ c.isMove = true) : Writes P c r data m := by
  rcases hpatch : c.patch m.patchData with e | patch
  · refine .inr ⟨e, m, ?_, rehearse_of_error ?_⟩
    · rw [writeTarget, if_neg hmove, outcome_bind_of_error]
      rw [outcome_machineLook, hpatch]
    · rw [output, if_neg hmove, hpatch]
      rfl
  have hwrite : outcome (writeTarget P c r data) m =
      outcome (Machine.onDevice (r.target.receive (patched P c patch data)) >>= fun _ =>
        Machine.onDevice (DeviceM.sync.mapError .os)) m := by
    rw [writeTarget, if_neg hmove, outcome_bind_of_ok (machineLook_eq_ok.mpr ⟨hpatch, rfl⟩), patched]
    split <;> rfl
  have hfails : ∀ {e d'}, outcome (r.target.receive (patched P c patch data)) m.device =
      (.error e, d') → outcome (writeTarget P c r data) m =
        (.error (.block e), { m with device := d' }) := by
    intro e d' h
    rw [hwrite, outcome_bind_of_error]
    rw [outcome_machineOnDevice, h]
    rfl
  rcases hend : (patched P c patch data).outcome with e | n
  · have hout := output_of_error hmove hpatch hend
    have hown := ownErrors_patched P c patch data e hend
    by_cases hsize : (patched P c patch data).bytes.size ≤ r.target.byteLength
    · obtain ⟨d', hrun⟩ := BlockSet.receive_failed hset hd hin hlimit hend hsize
      refine .inr ⟨_, _, hfails hrun, (rehearse_of_error hout).trans ?_⟩
      cases e <;> rfl
    · obtain ⟨k, d', hrun⟩ := BlockSet.receive_tooLong hset hd hin hlimit (Nat.lt_of_not_le hsize)
      refine .inr ⟨_, _, hfails hrun, (rehearse_of_error hout).trans ?_⟩
      cases e <;> first | rfl | exact absurd rfl (hown _)
  · have hout := output_of_ok hmove hpatch hend
    rcases Nat.lt_trichotomy (patched P c patch data).bytes.size r.target.byteLength with
      hsize | hsize | hsize
    · obtain ⟨d', hrun⟩ := BlockSet.receive_tooShort hset hd hin hlimit hend hsize
      exact .inr ⟨_, _, hfails hrun, rehearse_of_size_ne hout (by omega)⟩
    · obtain ⟨d', hrun, hd', himage⟩ := BlockSet.receive_eq_ok hset hd hin hlimit hend hsize
      refine .inl ⟨_, d', hout, Nat.le_of_eq hsize.symm, .inr hsize, ?_, hd', himage⟩
      rw [hwrite, outcome_bind_of_ok (machineOnDevice_eq_ok.mpr ⟨d', hrun, rfl⟩), outcome_sync hd']
    · obtain ⟨k, d', hrun⟩ := BlockSet.receive_tooLong hset hd hin hlimit hsize
      exact .inr ⟨_, _, hfails hrun, rehearse_of_size_ne hout (by omega)⟩

/-- **The writes of a command** put its output on the device, or fail as a dry run does. -/
theorem writes (P : Primitives) (c : Command) (data : Bytes) : Writes P c r data m := by
  by_cases hmove : c.isMove = true
  · exact writes_of_move hset hd hin hlimit hmove
  · exact writes_of_patch hset hd hin hlimit hmove

end Writes

/-! ## The source -/

/-- A command can keep its source and drop it again: there is room for it, and no directory has its
name. -/
structure Keepable (m : Machine) (place : Place) (r : Recipe) (s : Source) : Prop where
  room : Keeps r s m → m.HasRoom s.blocks
  sited : m.stash.Sited m.files place
  entry : m.files.get? (place ++ [r.sourceHash]) ≠ some .directory
  temporary : m.files.get? (place ++ [Stash.temporaryName r.sourceHash]) ≠ some .directory

theorem Keepable.keepSource (h : Keepable m place r s) (hs : c.source P r m = .ok s)
    (hsize : Keeps r s m → (P.sha256 s.data).size ≤ 32) :
    ∃ m₁, outcome (keepSource r s) m = (.ok (), m₁) ∧ m₁.device = m.device ∧
      m₁.patchData = m.patchData ∧ m₁.stash.Sited m₁.files place ∧
      m₁.files.get? (place ++ [r.sourceHash]) ≠ some .directory := by
  by_cases hkeeps : Keeps r s m
  · obtain ⟨hverify, hdata⟩ := source_verified hs h.sited
    have hbrief := hsize hkeeps
    rw [← Bytes.takeFirst_of_size_le (Nat.le_of_eq hdata)] at hbrief
    obtain ⟨hvalid, hname⟩ := Checksum.entry_of_verify hverify hbrief
    have hstorable : Stash.Storable m.files place r.sourceHash :=
      ⟨hvalid, hname, h.temporary, h.entry⟩
    refine ⟨m.keeping place r.sourceHash s.blocks s.data, (keepSource_eq_ok h.sited).mpr
      (.inl ⟨hkeeps, h.room hkeeps, hstorable, rfl⟩), rfl, rfl,
      (Machine.within_keeping c.Targets hstorable _ _).sited h.sited, ?_⟩
    show (Stash.stored _ _ _ _).get? _ ≠ _
    rw [Stash.get?_stored, if_pos rfl]
    exact nofun
  · exact ⟨m, (keepSource_eq_ok h.sited).mpr (.inr ⟨hkeeps, rfl⟩), rfl, rfl, h.sited, h.entry⟩

/-! ## Results -/

/-- **What a real run comes to** from a source is what a dry run comes to. -/
theorem resultOf_applyRecipe (hset : r.target.Sound) (hapart : BlockSet.Apart r.target.ranges)
    (hd : m.device.Healthy) (hin : BlockSet.Within r.target.ranges m.device.image.size)
    (hlimit : m.device.image.size ≤ Device.offsetLimit) (hkeep : Keepable m place r s)
    (hs : c.source P r m = .ok s) (hsize : (P.sha256 s.data).size ≤ 32)
    (hfront : ∀ m' front, outcome (applyRecipe P c r s) m = (.ok (), m') → c.isMove = true →
      r.target.read? m'.device = some front →
      Checksum.verify P front r.target.total r.targetHash = true → front = s.data) :
    resultOf (outcome (applyRecipe P c r s) m).1 = resultOf (rehearse P c r m.patchData s.data) := by
  obtain ⟨m₁, hkept, hdevice, hpatchData, hsited, hentry⟩ := hkeep.keepSource hs fun _ => hsize
  rw [← hdevice] at hd hin hlimit
  rw [← hpatchData]
  have hrun : outcome (applyRecipe P c r s) m = outcome (writeTarget P c r s.data >>= fun _ =>
      checkTarget P r >>= fun _ => dropSource r) m₁ := by
    rw [applyRecipe, outcome_bind_of_ok hkept]
  rcases writes hset hd hin hlimit P c s.data with
    ⟨out, d', hout, hfits, hwhole, hwrites, hd', himage⟩ | ⟨e, m', hfails, hresult⟩
  case inr => rw [hrun, outcome_bind_of_error hfails, hresult]
  -- what is read back is the front of the output
  let m₂ : Machine := { m₁ with device := d' }
  have hread : r.target.read? m₂.device = some (out.takeFirst r.target.byteLength) :=
    BlockSet.read?_laid hset hd' hin hlimit hapart hfits himage
  have hback := BlockSet.readInto_of_read? hset hread
  rw [hrun, outcome_bind_of_ok hwrites]
  by_cases hverify : Checksum.verify P (out.takeFirst r.target.byteLength) r.target.total
      r.targetHash = true
  · obtain ⟨m', hdrops⟩ := Machine.exists_drops (m := m₂) hentry
    have hcheck : outcome (checkTarget P r) m₂ = (.ok (), m₂) :=
      checkTarget_eq_ok.mpr ⟨by rw [hback]; exact hverify, rfl⟩
    have hdrop : outcome (dropSource r) m₂ = (.ok (), m') :=
      (dropSource_eq_ok (m := m₂) hsited).mpr hdrops
    have hsuccess : outcome (applyRecipe P c r s) m = (.ok (), m') := by
      rw [hrun, outcome_bind_of_ok hwrites, outcome_bind_of_ok hcheck, hdrop]
    have hsame : out.size = r.target.byteLength := by
      rcases hwhole with hmove | hsame
      · have hdata : out = s.data := by
          rw [output_of_move hmove] at hout
          exact (Except.ok.inj hout).symm
        have hwhole := hfront m' _ hsuccess hmove (by rw [hdrops.device]; exact hread) hverify
        rw [← hdata] at hwhole
        have hcut := congrArg ByteArray.size hwhole
        rw [Bytes.size_takeFirst] at hcut
        omega
      · exact hsame
    rw [Bytes.takeFirst_of_size_le (Nat.le_of_eq hsame)] at hverify
    rw [outcome_bind_of_ok hcheck, hdrop, rehearse, hout]
    show _ = resultOf (checkOutput P r out)
    rw [checkOutput, if_pos ⟨hsame, hverify⟩]
  · have hcheck : outcome (checkTarget P r) m₂ = (.error (.targetMismatch r.targetHash), m₂) := by
      rw [checkTarget, outcome_get_bind, hback, if_pos (by simpa using hverify)]
      rfl
    rw [outcome_bind_of_error hcheck, rehearse, hout]
    show _ = resultOf (checkOutput P r out)
    rw [checkOutput, if_neg]
    · rfl
    · rintro ⟨hsame, hverify'⟩
      rw [Bytes.takeFirst_of_size_le (Nat.le_of_eq hsame)] at hverify
      exact hverify hverify'

/-! ## Counts -/

/-- Nothing more is counted as written. -/
def Uncounted (m m' : Machine) : Prop := m'.written = m.written

instance : IsPreorder Machine Uncounted where
  refl _ := rfl
  trans _ _ _ h h' := h'.trans h

/-- What is written is counted at the end only. -/
theorem uncounted_applyRecipe (P : Primitives) (c : Command) (r : Recipe) (s : Source)
    (m : Machine) : Leaves Uncounted (applyRecipe P c r s) m := by
  have hstored : ∀ (x : FileM StashError Unit) (m : Machine),
      Leaves Uncounted (Machine.onFiles x) m := fun _ _ => rfl
  have hdevice : ∀ {α} (x : DeviceM BlockError α) (m : Machine),
      Leaves Uncounted (Machine.onDevice x) m := fun _ _ => rfl
  refine Leaves.bind (Leaves.get_bind ?_) fun _ m₁ _ _ => Leaves.bind (Leaves.ite (fun _ => ?_)
    fun _ => ?_) fun _ m₂ _ _ => Leaves.bind (Leaves.get_bind ?_) fun _ m₃ _ _ => Leaves.get_bind ?_
  · cases s.device with
    | none => exact Leaves.pure _
    | some set =>
      refine Leaves.ite (fun _ => Leaves.bind ?_ fun _ m _ _ => hstored _ m) fun _ => Leaves.pure _
      exact Leaves.get_bind (Leaves.ite (fun _ => Leaves.throw _) fun _ =>
        Leaves.ite (fun _ => Leaves.throw _) fun _ => rfl)
  · exact Leaves.bind (hdevice _ m₁) fun _ m _ _ => hdevice _ m
  · exact Leaves.bind rfl fun _ m _ _ => Leaves.bind (hdevice _ m) fun _ m _ _ => hdevice _ m
  · exact Leaves.ite (fun _ => Leaves.throw _) fun _ => Leaves.pure _
  · cases m₃.stash.entrySize? m₃.files r.sourceHash with
    | none => exact Leaves.pure _
    | some size => exact Leaves.bind rfl fun _ m _ _ => hstored _ m

/-! ## Whole commands -/

/-- What was written is counted if all went well. -/
theorem count_of_uncounted {x : MachineM CommandFailure Unit} (h : Leaves Uncounted x m)
    (blocks : Nat) :
    resultOf (outcome (x >>= fun _ => Machine.addWritten blocks) m).1 = resultOf (outcome x m).1 ∧
      (outcome (x >>= fun _ => Machine.addWritten blocks) m).2.written =
        m.written + if resultOf (outcome x m).1 = .success then blocks else 0 := by
  rcases hrun : outcome x m with ⟨e | ⟨⟩, m'⟩
  · have hwritten : m'.written = m.written := by
      have := h
      rwa [Leaves, hrun] at this
    have hfailed : resultOf (.error e) ≠ .success := fun h => by cases resultOf_eq_success.mp h
    rw [outcome_bind_of_error hrun]
    exact ⟨rfl, hwritten.trans (by rw [if_neg hfailed, Nat.add_zero])⟩
  · have hwritten : m'.written = m.written := by
      have := h
      rwa [Leaves, hrun] at this
    rw [outcome_bind_of_ok hrun, if_pos (resultOf_eq_success.mpr rfl), ← hwritten]
    exact ⟨rfl, rfl⟩

/-- A move names its source and its target by the same digest. -/
theorem hashes_of_move (hmove : c.isMove = true) (hr : c.recipe = .ok r) :
    r.sourceHash = r.targetHash := by
  rw [recipe, if_pos hmove] at hr
  obtain ⟨source, hsource, hr⟩ := except_bind_eq_ok.mp hr
  obtain ⟨target, htarget, hr⟩ := except_bind_eq_ok.mp hr
  obtain ⟨set, -, hr⟩ := except_bind_eq_ok.mp hr
  obtain rfl := Except.ok.inj hr
  exact Except.ok.inj (hsource.symm.trans htarget)

/-- **A dry run has the result that a real run has**, and counts as much. -/
theorem execute_dry (hmakes : c.makesTarget) (hhealthy : m.device.Healthy)
    (hlimit : m.device.image.size ≤ Device.offsetLimit) (hunlimited : m.header.Unlimited)
    (hsited : m.stash.Sited m.files place)
    (hapart : ∀ r, c.recipe = .ok r → BlockSet.Apart r.target.ranges)
    (hfiles : ∀ r, c.recipe = .ok r →
      m.files.get? (place ++ [r.sourceHash]) ≠ some .directory ∧
        m.files.get? (place ++ [Stash.temporaryName r.sourceHash]) ≠ some .directory)
    (hsize : ∀ data, c.Digests m data → (P.sha256 data).size ≤ 32)
    (hfree : CollisionFree P fun data => c.Digests m data ∨
      c.Digests ((c.execute P).run { m with canWrite := true }).2 data) :
    ∃ result dry live, (c.execute P).run { m with canWrite := false } = (result, dry) ∧
      (c.execute P).run { m with canWrite := true } = (result, live) ∧
      dry.written = live.written := by
  have hrun : ∀ m : Machine, (c.execute P).run m =
      (resultOf (outcome (makeTarget P c) m).1, (outcome (makeTarget P c) m).2) := by
    intro m
    rw [execute_eq, run_of_makesTarget hmakes]
  rw [hrun] at hfree
  rw [hrun, hrun]
  rcases makeTarget_cases P c m with ⟨result, hboth⟩ | ⟨r, s, hneeds, hs⟩
  · rw [hboth false, hboth true]
    exact ⟨_, _, _, rfl, rfl, rfl⟩
  obtain ⟨hr, before, hread, -⟩ := id hneeds
  have hset := sound_of_blockSet (blockSet_of_recipe hr)
  let live : Machine := { m with canWrite := true }
  let dry : Machine := { m with canWrite := false }
  have hkeep : Keepable live place r s :=
    ⟨fun _ => hunlimited.hasRoom _, hsited, (hfiles r hr).1, (hfiles r hr).2⟩
  have hsource : c.Digests m s.data := by
    obtain ⟨found, hload, ⟨-, rfl⟩ | ⟨-, data, hrecover, -, rfl⟩⟩ := source_eq_ok.mp hs
    · exact ⟨r, hr, .inr ⟨_, hload, .inl rfl⟩⟩
    · exact ⟨r, hr, .inr ⟨found, hload, .inr hrecover⟩⟩
  have hlive := makeTarget_of_needs (m := live) rfl hneeds hs
  have hdry := makeTarget_of_dry (m := dry) rfl hneeds hs
  obtain ⟨hlook, hlookWritten⟩ := count_of_uncounted (m := dry)
    (rfl : Leaves Uncounted (Machine.look fun m => rehearse P c r m.patchData s.data) dry)
    r.target.total
  obtain ⟨happly, happlyWritten⟩ := count_of_uncounted (m := live)
    (uncounted_applyRecipe P c r s live) r.target.total
  have hresult : resultOf (outcome (applyRecipe P c r s) live).1 =
      resultOf (rehearse P c r m.patchData s.data) := by
    refine resultOf_applyRecipe hset (hapart r hr) hhealthy
      (BlockSet.within_of_read? hset hhealthy.2 hread) hlimit hkeep hs (hsize _ hsource) ?_
    -- of a move only the front is read back, which has the digest of the whole
    intro m' front hok hmove hfront hverify
    obtain ⟨hwhole, hwholeSize⟩ := source_verified hs hsited
    have hhash : r.sourceHash = r.targetHash := hashes_of_move hmove hr
    rw [hhash] at hwhole
    refine Checksum.eq_of_verify hfree hverify hwhole (BlockSet.size_of_read? hset hfront)
      hwholeSize (.inr ?_) (.inl hsource)
    rw [hlive, outcome_bind_of_ok hok]
    exact ⟨r, hr, .inl hfront⟩
  rw [hlive, hdry]
  refine ⟨_, _, _, rfl, Prod.ext (happly.trans (hresult.trans hlook.symm)) rfl, ?_⟩
  rw [hlookWritten, happlyWritten, hresult]
  rfl

/-! ## A shift by one block, rehearsed -/

section Shift

open Bytes (uniform)

variable {entries : List (Place × Node)}

/-- A dry run of the shift finds that it succeeds. -/
theorem execute_dry_shift : ∃ dry, ((shift []).execute .tabled).run
    { threeBlocks entries [0, 0, 1] with canWrite := false } = (.success, dry) := by
  let m : Machine := { threeBlocks entries [0, 0, 1] with canWrite := false }
  have hneeds := (@needs_shift entries []).of_live false
  have hload := load_shift (m := threeBlocks entries [0, 0, 1]) rfl rfl
  have hs : (shift []).source .tabled shiftRecipe m = .ok shiftSource :=
    (source_live _ _ _ _ false).trans (source_shift hload)
  have hverify : Checksum.verify .tabled (uniform [0, 0]) 2 (Digest.name [0, 0]) = true := verify_shift rfl
  have hcheck : checkOutput .tabled shiftRecipe (uniform [0, 0]) = .ok () := by
    rw [checkOutput, if_pos]
    exact ⟨Bytes.size_uniform _, hverify⟩
  have hrehearse : rehearse .tabled (shift []) shiftRecipe m.patchData shiftSource.data = .ok () :=
    except_bind_eq_ok.mpr ⟨uniform [0, 0], output_of_move rfl _, hcheck⟩
  have hlook : outcome (Machine.look fun m : Machine =>
      rehearse .tabled (shift []) shiftRecipe m.patchData shiftSource.data) m = (.ok (), m) :=
    machineLook_eq_ok.mpr ⟨hrehearse, rfl⟩
  refine ⟨{ m with written := m.written + 2 }, ?_⟩
  rw [execute_eq_success, run_of_makesTarget (.inl rfl),
    makeTarget_of_dry (m := m) rfl hneeds hs,
    outcome_bind_of_ok hlook]
  rfl

/-- A stash with a directory of the name of the source. -/
def occupied : List (Place × Node) := [(["s", Digest.name [0, 0]], .directory)]

/-- **A directory of the name of the source** lets a real run fail, and a dry run does not see it. -/
theorem shift_occupied : (∀ involved, CollisionFree .tabled involved) ∧
    (∃ dry, ((shift []).execute .tabled).run
      { threeBlocks occupied [0, 0, 1] with canWrite := false } = (.success, dry)) ∧
    ∀ live, ((shift []).execute .tabled).run
      { threeBlocks occupied [0, 0, 1] with canWrite := true } ≠ (.success, live) := by
  refine ⟨collisionFree_tabled, execute_dry_shift, fun live hrun => ?_⟩
  let m : Machine := { threeBlocks occupied [0, 0, 1] with canWrite := true }
  have hsited : m.stash.Sited m.files ["s"] := sited_threeBlocks occupied [0, 0, 1]
  have hdir : m.files.get? (["s"] ++ [Digest.name [0, 0]]) = some .directory := rfl
  have hneeds := (@needs_shift occupied []).of_live true
  have hload := load_shift (m := threeBlocks occupied [0, 0, 1]) rfl rfl
  have hs : (shift []).source .tabled shiftRecipe m = .ok shiftSource :=
    (source_live _ _ _ _ true).trans (source_shift hload)
  rw [execute_eq_success, run_of_makesTarget (.inl rfl),
    makeTarget_of_needs (m := m) rfl hneeds hs,
    outcome_bind_eq_ok] at hrun
  obtain ⟨⟨⟩, m', happly, -⟩ := hrun
  obtain ⟨m₁, m₂, hkeep, hwrites, -, hdrop⟩ := applyRecipe_eq_ok.mp happly
  -- the source could not be kept, and what has its name cannot be dropped
  rcases (keepSource_eq_ok hsited).mp hkeep with ⟨-, -, hstorable, -⟩ | ⟨-, rfl⟩
  · exact hstorable.entry hdir
  have hset := sound_of_blockSet (blockSet_of_recipe (@recipe_shift []))
  obtain ⟨ws, -, rfl, -⟩ := writeTarget_eq_ok hset hwrites
  rcases (dropSource_eq_ok (m := m.wrote ws) hsited).mp hdrop with ⟨hnone, -⟩ | ⟨size, -, hfree, -⟩
  · rcases (Stash.entrySize?_eq_none hsited).mp hnone with hentry | hgone
    · exact hentry ⟨by decide, by decide⟩
    · cases hdir.symm.trans hgone
  · exact hfree hdir

/-- Without it both succeed. -/
theorem execute_dry_shift_live : ∃ dry live,
    ((shift []).execute .tabled).run { threeBlocks [] [0, 0, 1] with canWrite := false } =
      (.success, dry) ∧
    ((shift []).execute .tabled).run { threeBlocks [] [0, 0, 1] with canWrite := true } =
      (.success, live) ∧ dry.written = live.written := by
  have hsited := sited_threeBlocks [] [0, 0, 1]
  have hnone : ∀ name, (threeBlocks [] [0, 0, 1]).files.get? (["s"] ++ [name]) = none := by
    intro name
    rw [FileTree.get?, if_neg (by simp)]
    rfl
  have hdigests : ∀ data, (shift []).Digests (threeBlocks [] [0, 0, 1]) data →
      (Primitives.tabled.sha256 data).size ≤ 32 := by
    have hbrief : ∀ fill ∈ [[0, 1], [0, 0]],
        (Primitives.tabled.sha256 (uniform fill)).size ≤ 32 := by
      have hsizes : ∀ fill ∈ [[0, 1], [0, 0]], (Digest.ofUniform fill).size ≤ 32 := by decide
      intro fill hfill
      show (Digest.tabled (uniform fill)).size ≤ 32
      rw [Digest.tabled_uniform]
      exact hsizes fill hfill
    rintro data ⟨r, hr, hread | ⟨s, hload, hdata⟩⟩
    · obtain rfl := Except.ok.inj (recipe_shift.symm.trans hr)
      have hcurrent : shiftRecipe.target.read? (threeBlocks [] [0, 0, 1]).device =
          some (uniform (BlockSet.pick [⟨1, 2⟩] [0, 0, 1])) :=
        BlockSet.read?_uniform ⟨rfl, rfl⟩ rfl threeBlocks_fits (by decide)
      rw [hcurrent] at hread
      rw [← Option.some.inj hread]
      exact hbrief [0, 1] (by simp)
    · obtain rfl := Except.ok.inj (recipe_shift.symm.trans hr)
      obtain rfl := Except.ok.inj ((load_shift rfl rfl).symm.trans hload)
      rcases hdata with rfl | hentry
      · exact hbrief [0, 0] (by simp)
      · obtain ⟨-, hfile, -⟩ := (Stash.load?_eq_some hsited).mp hentry
        cases (hnone _).symm.trans hfile
  obtain ⟨result, dry, live, hdry, hlive, hwritten⟩ := execute_dry (P := .tabled)
    (m := threeBlocks [] [0, 0, 1]) (c := shift []) (.inl rfl) ⟨rfl, rfl⟩
    (by show (uniform [0, 0, 1]).size ≤ _; rw [Bytes.size_uniform]; decide) ⟨rfl, rfl⟩ hsited
    (fun r hr => by
      obtain rfl := Except.ok.inj (recipe_shift.symm.trans hr)
      exact List.pairwise_singleton _ _)
    (fun r _ => ⟨by rw [hnone]; exact (Option.some_ne_none _).symm,
      by rw [hnone]; exact (Option.some_ne_none _).symm⟩) hdigests
    (collisionFree_tabled _)
  obtain ⟨dry', hdry'⟩ := @execute_dry_shift []
  obtain rfl : .success = result := congrArg Prod.fst (hdry'.symm.trans hdry)
  exact ⟨dry, live, hdry, hlive, hwritten⟩

end Shift

end Command

end BlockUpdate
