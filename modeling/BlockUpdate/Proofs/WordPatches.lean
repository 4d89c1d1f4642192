import BlockUpdate.Proofs.PatchSemantics
import BlockUpdate.Proofs.Words

/-!
# Block patches in words of sixty-four bits

`BlockPatch.apply` computes with numbers. A machine has words for lengths and positions, reads its
streams front to back, and goes round loops. This file applies a patch with the checked operations
of such a machine, so that every sum, negation and index that could go wrong ends the run with a
fault, and so does a loop that goes round too often.

- `Words.Header`, `Words.parseHeader`: the header.
- `Words.sums`, `Words.diffRun`, `Words.extraRun`: the inner loops.
- `Words.State`, `Words.step`, `Words.loop`, `Words.apply`: triples, and whole patches.

**Main statements**: `parseHeader_cases` (a header is accepted if its lengths fit the patch, and
then all sums of them fit a word), `sums_eq`, `diffRun_follows`, `extraRun_follows`, `step_follows`,
`loop_follows` (each part does what its counterpart on numbers does), `apply_faultless` (whatever
the patch, there is no fault, and no loop goes round more often than the streams have bytes).
-/

namespace BlockUpdate.Words

open BlockPatch (Cursors Streams)

/-! ## The machine -/

/-- The lengths that a block patch declares. -/
structure Header where
  controlSize : UInt64
  diffSize : UInt64
  newSize : UInt64

/-- Where the streams of a header end, if that fits a word. -/
def Header.streamsEnd (h : Header) : Option UInt64 :=
  (checkedAdd 32 h.controlSize).bind (checkedAdd · h.diffSize)

/-- Checks the lengths that a header declares. -/
def checkLengths (patch : Bytes) (control diff new : Int64) : Run Header :=
  if control < 0 ∨ diff < 0 ∨ new < 0 then
    fail (.corruptHeader (.negativeLength control.toInt diff.toInt new.toInt))
  else
    let header : Header := ⟨control.toUInt64, diff.toUInt64, new.toUInt64⟩
    match header.streamsEnd with
    | some stop =>
      if stop ≤ len patch then return header
      else fail (.corruptHeader (.longStreams (len patch).toNat))
    | none => fail (.corruptHeader (.longStreams (len patch).toNat))

/-- Reads and checks the header of a patch. -/
def parseHeader (patch : Bytes) : Run Header := do
  if len patch < 32 then
    fail (.corruptHeader (.shortHeader (len patch).toNat))
  else if (← slice patch 0 8) ≠ BlockPatch.magic then
    fail (.corruptHeader .badBlockMagic)
  else
    let control ← readSigned patch 8
    let diff ← readSigned patch 16
    let new ← readSigned patch 24
    checkLengths patch control diff new

/-- Output leaves in runs of at most this size, from a buffer that has it. -/
def runSize : UInt64 := 65536

/-- The size of the next piece of a run. -/
def pieceSize (remaining : UInt64) : UInt64 := if remaining < runSize then remaining else runSize

/-- Reads the next bytes of a stream into the buffer; gives them and what is left. -/
def readExact (left : Bytes) (n : UInt64) (stage : CodecStage) : Run (Bytes × Bytes) :=
  if runSize < n then fault .outOfBounds
  else if n.toNat ≤ left.size then return (left.takeFirst n.toNat, left.dropFirst n.toNat)
  else fail (.codec stage)

/-- The byte of a piece at index `i`, plus the old byte that it is aligned with if there is one. -/
def sumAt (old : Bytes) (position : Int64) (piece : Bytes) (i : UInt64) : Run UInt8 := do
  let byte ← index piece i
  let place ← addSigned position i.toInt64
  if 0 ≤ place ∧ place.toUInt64 < len old then
    return byte + (← index old place.toUInt64)
  else
    return byte

/-- The sums of `n` bytes of a piece from index `i` on, behind what was summed before. -/
def sums (old : Bytes) (position : Int64) (piece : Bytes) : Nat → UInt64 → Bytes → Run Bytes
  | 0, _, out => return out
  | n + 1, i, out => do
    sums old position piece n (i + 1) (out.push (← sumAt old position piece i))

/-- Hands over the `remaining` bytes of a diff run; gives the position and the stream behind it. -/
def diffRun (old : Bytes) : Nat → UInt64 → Int64 → Bytes → Run (Int64 × Bytes)
  | 0, _, _, _ => fault .unfinished
  | rounds + 1, remaining, position, diff =>
    if 0 < remaining then do
      let n := pieceSize remaining
      match checkedAddSigned position n.toInt64 with
      | none => fail (.outOfRange (.oldPosition n.toNat position.toInt))
      | some stop =>
        let (piece, diff) ← readExact diff n .diffStream
        put (← sums old position piece n.toNat 0 ByteArray.empty)
        diffRun old rounds (← sub remaining n) stop diff
    else
      return (position, diff)

/-- Hands over the `remaining` bytes of an extra run; gives the stream behind it. -/
def extraRun : Nat → UInt64 → Bytes → Run Bytes
  | 0, _, _ => fault .unfinished
  | rounds + 1, remaining, extra =>
    if 0 < remaining then do
      let n := pieceSize remaining
      let (piece, extra) ← readExact extra n .extraStream
      put piece
      extraRun rounds (← sub remaining n) extra
    else
      return extra

/-- What is left of the streams, and the positions in the output and in the old data. -/
structure State where
  control : Bytes
  diff : Bytes
  extra : Bytes
  made : UInt64
  position : Int64

/-- Runs one triple. -/
def step (rounds : Nat) (old : Bytes) (newSize : UInt64) (triple : Bytes) (s : State) :
    Run State := do
  let add₀ ← readSigned triple 0
  let copy₀ ← readSigned triple 8
  let seek ← readSigned triple 16
  if add₀ < 0 ∨ copy₀ < 0 then
    fail (.corruptHeader (.negativeRun add₀.toInt copy₀.toInt))
  else
    let addSize := add₀.toUInt64
    if newSize < (← add s.made addSize) then
      fail (.outOfRange (.diffRun addSize.toNat s.made.toNat newSize.toNat))
    else
      let (position, diff) ← diffRun old rounds addSize s.position s.diff
      let made ← add s.made addSize
      let copySize := copy₀.toUInt64
      if newSize < (← add made copySize) then
        fail (.outOfRange (.extraRun copySize.toNat made.toNat newSize.toNat))
      else
        let extra ← extraRun rounds copySize s.extra
        let made ← add made copySize
        match checkedAddSigned position seek with
        | none => fail (.corruptHeader (.seekOverflow seek.toInt))
        | some position => return { s with diff, extra, made, position }

/-- Runs triples until the output is complete. -/
def loop (limit : Nat) (old : Bytes) (newSize : UInt64) : Nat → State → Run Unit
  | 0, _ => fault .unfinished
  | rounds + 1, s =>
    if s.made < newSize then do
      let (triple, control) ← readExact s.control 24 .controlStream
      loop limit old newSize rounds (← step limit old newSize triple { s with control })
    else
      return

/-- Applies a block patch to old data, where no loop may go round more often than `rounds` times;
gives the number of bytes handed over. -/
def apply (P : Primitives) (rounds : Nat) (patch old : Bytes) : Run UInt64 := do
  let header ← parseHeader patch
  let controlEnd ← add 32 header.controlSize
  let diffEnd ← add controlEnd header.diffSize
  let control := (P.bunzip2 (← slice patch 32 controlEnd)).bytes
  let diff := (P.bunzip2 (← slice patch controlEnd diffEnd)).bytes
  let extra := (P.bunzip2 (← sliceFrom patch diffEnd)).bytes
  loop rounds old header.newSize rounds ⟨control, diff, extra, 0, 0⟩
  return header.newSize

/-! ## Headers -/

/-- A field inside a string is read. -/
theorem readSigned_inside {b : Bytes} (offset : UInt64) (h : offset.toNat + 8 ≤ b.size)
    (hoffset : offset.toNat + 8 < 2 ^ 64) :
    ∃ w : Int64, readSigned b offset = pure w ∧
      SignMagnitude.read b offset.toNat = .ok w.toInt := by
  obtain ⟨n, hread⟩ := BlockPatch.read_eq_ok offset.toNat h
  have hn := natAbs_of_read hread
  have hvalue : (Int64.ofInt n).toInt = n := toInt_ofInt (by constructor <;> omega)
  refine ⟨Int64.ofInt n, ?_, by rw [hread, hvalue]⟩
  rw [readSigned_eq hoffset, hread]
  rfl

/-- Words that stand for the lengths of a header whose streams lie inside the patch. -/
structure Header.Declares (w : Header) (h : BlockPatch.Header) (patch : Bytes) : Prop where
  control_eq : w.controlSize.toNat = h.controlSize
  diff_eq : w.diffSize.toNat = h.diffSize
  new_eq : w.newSize.toNat = h.newSize
  new_lt : h.newSize < 2 ^ 63
  inside : BlockPatch.headerSize + h.controlSize + h.diffSize ≤ patch.size
  fits : BlockPatch.headerSize + h.controlSize + h.diffSize < 2 ^ 64

/-- A length that is not negative keeps its value, and is below the sign bit. -/
theorem toNat_length {a : Int64} (h : ¬ a < 0) :
    a.toUInt64.toNat = a.toInt.toNat ∧ a.toInt < 2 ^ 63 := by
  rw [lt_zero_iff] at h
  exact ⟨toNat_toUInt64 (by omega), a.toInt_lt⟩

theorem streamsEnd_cases (w : Header) :
    (∃ stop, w.streamsEnd = some stop ∧
        stop.toNat = 32 + w.controlSize.toNat + w.diffSize.toNat) ∨
      w.streamsEnd = none ∧ 2 ^ 64 ≤ 32 + w.controlSize.toNat + w.diffSize.toNat := by
  have hsize : (32 : UInt64).toNat = 32 := rfl
  rw [Header.streamsEnd, checkedAdd, hsize]
  by_cases hcontrol : 32 + w.controlSize.toNat < 2 ^ 64
  · have hfirst := toNat_add (a := 32) (b := w.controlSize) hcontrol
    rw [if_pos hcontrol, Option.bind_some, checkedAdd, hfirst, hsize]
    by_cases hdiff : 32 + w.controlSize.toNat + w.diffSize.toNat < 2 ^ 64
    · refine .inl ⟨_, if_pos hdiff, ?_⟩
      rw [toNat_add (by rwa [hfirst]), hfirst, hsize]
    · exact .inr ⟨if_neg hdiff, by omega⟩
  · rw [if_neg hcontrol]
    exact .inr ⟨rfl, by omega⟩

/-- The header of numbers, once its fields are known. -/
theorem parse_of_fields {patch : Bytes} {control diff new : Int} (hsize : 32 ≤ patch.size)
    (hmagic : patch.takeFirst 8 = BlockPatch.magic)
    (hcontrol : SignMagnitude.read patch 8 = .ok control)
    (hdiff : SignMagnitude.read patch 16 = .ok diff)
    (hnew : SignMagnitude.read patch 24 = .ok new) :
    BlockPatch.Header.parse patch =
      if control < 0 ∨ diff < 0 ∨ new < 0 then
        .error (.corruptHeader (.negativeLength control diff new))
      else if patch.size < BlockPatch.headerSize + control.toNat + diff.toNat then
        .error (.corruptHeader (.longStreams patch.size))
      else .ok ⟨control.toNat, diff.toNat, new.toNat⟩ := by
  have hheader : ¬ patch.size < BlockPatch.headerSize := Nat.not_lt.mpr hsize
  rw [BlockPatch.Header.parse, if_neg hheader, hmagic, hcontrol, hdiff, hnew]
  simp only [bind, Except.bind, pure, Except.pure, throw, throwThe, MonadExceptOf.throw, ne_eq,
    not_true_eq_false, if_false]

/-- Lengths are accepted if the streams lie inside the patch; otherwise the error is the same. -/
theorem checkLengths_cases {patch : Bytes} {control diff new : Int64} (hsize : 32 ≤ patch.size)
    (hmagic : patch.takeFirst 8 = BlockPatch.magic)
    (hcontrol : SignMagnitude.read patch 8 = .ok control.toInt)
    (hdiff : SignMagnitude.read patch 16 = .ok diff.toInt)
    (hnew : SignMagnitude.read patch 24 = .ok new.toInt) :
    (∃ w h, checkLengths patch control diff new = pure w ∧
        BlockPatch.Header.parse patch = .ok h ∧ w.Declares h patch) ∨
      ∃ e, checkLengths patch control diff new = fail e ∧
        (patch.size < 2 ^ 64 → BlockPatch.Header.parse patch = .error e) := by
  have hheader : BlockPatch.headerSize = 32 := rfl
  have hsign : (control < 0 ∨ diff < 0 ∨ new < 0) ↔
      (control.toInt < 0 ∨ diff.toInt < 0 ∨ new.toInt < 0) := by
    rw [lt_zero_iff, lt_zero_iff, lt_zero_iff]
  rw [parse_of_fields hsize hmagic hcontrol hdiff hnew, checkLengths]
  by_cases hnegative : control < 0 ∨ diff < 0 ∨ new < 0
  · rw [if_pos hnegative, if_pos (hsign.mp hnegative)]
    exact .inr ⟨_, rfl, fun _ => rfl⟩
  rw [if_neg hnegative, if_neg (mt hsign.mpr hnegative)]
  rw [not_or, not_or] at hnegative
  obtain ⟨hcontrolNat, -⟩ := toNat_length hnegative.1
  obtain ⟨hdiffNat, -⟩ := toNat_length hnegative.2.1
  obtain ⟨hnewNat, hnewLt⟩ := toNat_length hnegative.2.2
  rcases streamsEnd_cases ⟨control.toUInt64, diff.toUInt64, new.toUInt64⟩ with
    ⟨stop, hstop, hvalue⟩ | ⟨hstop, hlong⟩
  · dsimp only at hvalue ⊢
    rw [hstop]
    dsimp only
    by_cases hle : stop ≤ len patch
    · have hinside := UInt64.le_iff_toNat_le.mp hle
      have hlen := toNat_len_le patch
      have hstopLt := stop.toNat_lt
      rw [if_pos hle, if_neg (by omega)]
      refine .inl ⟨_, _, rfl, rfl, hcontrolNat, hdiffNat, hnewNat, ?_, ?_, ?_⟩ <;>
        dsimp only <;> omega
    · rw [if_neg hle]
      refine .inr ⟨_, rfl, fun hfits => ?_⟩
      have houtside := mt UInt64.le_iff_toNat_le.mpr hle
      rw [toNat_len hfits] at houtside ⊢
      rw [if_pos (by omega)]
  · dsimp only at hlong ⊢
    rw [hstop]
    refine .inr ⟨_, rfl, fun hfits => ?_⟩
    rw [toNat_len hfits, if_pos (by omega)]

/-- **A header is accepted** if its streams lie inside the patch; otherwise it is refused with the
same error. -/
theorem parseHeader_cases (patch : Bytes) :
    (∃ w h, parseHeader patch = pure w ∧ BlockPatch.Header.parse patch = .ok h ∧
        w.Declares h patch) ∨
      ∃ e, parseHeader patch = fail e ∧
        (patch.size < 2 ^ 64 → BlockPatch.Header.parse patch = .error e) := by
  have hheader : BlockPatch.headerSize = 32 := rfl
  have hword : (32 : UInt64).toNat = 32 := rfl
  have hlen := toNat_len_le patch
  rw [parseHeader]
  by_cases hshort : len patch < 32
  · refine .inr ⟨_, if_pos hshort, fun hfits => ?_⟩
    have hlt := UInt64.lt_iff_toNat_lt.mp hshort
    rw [toNat_len hfits] at hlt ⊢
    rw [BlockPatch.Header.parse, if_pos (by omega)]
    rfl
  have hsize := mt UInt64.lt_iff_toNat_lt.mpr hshort
  have hslice : slice patch 0 8 = pure (patch.takeFirst 8) :=
    slice_eq (Nat.zero_le _) (Nat.le_trans (by decide : 8 ≤ 32) (by omega))
  rw [if_neg hshort, hslice, pure_bind]
  by_cases hmagic : patch.takeFirst 8 ≠ BlockPatch.magic
  · refine .inr ⟨_, if_pos hmagic, fun _ => ?_⟩
    rw [BlockPatch.Header.parse, if_neg (by omega), if_pos hmagic]
    rfl
  -- all three fields are inside the header
  obtain ⟨control, hcontrol, hcontrol'⟩ := readSigned_inside (b := patch) 8
    (Nat.le_trans (by decide : 16 ≤ 32) (by omega)) (by decide)
  obtain ⟨diff, hdiff, hdiff'⟩ := readSigned_inside (b := patch) 16
    (Nat.le_trans (by decide : 24 ≤ 32) (by omega)) (by decide)
  obtain ⟨new, hnew, hnew'⟩ := readSigned_inside (b := patch) 24
    (Nat.le_trans (by decide : 32 ≤ 32) (by omega)) (by decide)
  rw [if_neg hmagic, hcontrol, pure_bind, hdiff, pure_bind, hnew, pure_bind]
  exact checkLengths_cases (by omega) (Decidable.not_not.mp hmagic) hcontrol' hdiff' hnew'

/-! ## Sums -/

variable {old : Bytes} {position : Int64} {piece : Bytes}

/-- The byte to add, if the place is inside the old data. -/
theorem sumAt_eq (hold : old.size < 2 ^ 63) {i : UInt64} (hi : i.toNat < piece.size)
    (hword : i.toNat < 2 ^ 63) (hfits : Fits (position.toInt + i.toNat)) :
    sumAt old position piece i = pure (match old.at? (position.toInt + i.toNat) with
      | some o => piece.get! i.toNat + o
      | none => piece.get! i.toNat) := by
  have hindex := toInt_toInt64 hword
  rw [← hindex] at hfits ⊢
  have hplace := toInt_add hfits
  obtain ⟨place, hdef⟩ : ∃ place, place = position + i.toInt64 := ⟨_, rfl⟩
  rw [sumAt, index_eq hi, pure_bind, addSigned_eq hfits, pure_bind, ← hplace, ← hdef,
    Bytes.get!_eq_byte]
  have hsign := zero_le_iff place
  have hsize : (len old).toNat = old.size := toNat_len (by omega)
  by_cases hin : 0 ≤ place.toInt ∧ place.toInt.toNat < old.size
  · have hnat := toNat_toUInt64 hin.1
    have hlt : place.toUInt64 < len old := by
      rw [UInt64.lt_iff_toNat_lt, hnat, hsize]
      exact hin.2
    rw [if_pos ⟨hsign.mpr hin.1, hlt⟩, index_eq (by rw [hnat]; exact hin.2), pure_bind, Bytes.at?,
      dif_pos hin, hnat, Bytes.byte_of_lt hin.2]
  · rw [Bytes.at?, dif_neg hin, if_neg]
    rintro ⟨hnonneg, hlt⟩
    have hnat := toNat_toUInt64 (hsign.mp hnonneg)
    rw [UInt64.lt_iff_toNat_lt, hnat, hsize] at hlt
    exact hin ⟨hsign.mp hnonneg, hlt⟩

/-- **The sums** are those of the numbers, if the places of all bytes of a piece are positions. -/
theorem sums_eq (hold : old.size < 2 ^ 63) (hsize : piece.size < 2 ^ 63)
    (hfits : position.toInt + piece.size < 2 ^ 63) {n : Nat} {i : UInt64} {out : Bytes}
    (hn : i.toNat + n ≤ piece.size) :
    sums old position piece n i out =
      pure (BlockPatch.addOld old position.toInt piece n i.toNat out) := by
  induction n generalizing i out with
  | zero => rfl
  | succ n ih =>
    have hlow := position.le_toInt
    have hsum : sumAt old position piece i = _ :=
      sumAt_eq hold (by omega) (by omega) (by constructor <;> omega)
    have hone : (1 : UInt64).toNat = 1 := rfl
    have hnext : (i + 1).toNat = i.toNat + 1 := toNat_add (by omega)
    rw [sums, hsum, pure_bind, ih (by omega), hnext]
    rfl

/-! ## Runs -/

variable {s : Streams} {limit : Nat}

/-- A stream holds the next bytes, or it does not. -/
theorem readExact_cases (b : Bytes) (start : Nat) {n : UInt64} (hn : 0 < n.toNat)
    (hroom : n ≤ runSize) (stage : CodecStage) :
    (∃ piece, b.slice? start n.toNat = some piece ∧ start + n.toNat ≤ b.size ∧
        readExact (b.dropFirst start) n stage = pure (piece, b.dropFirst (start + n.toNat))) ∨
      b.slice? start n.toNat = none ∧
        readExact (b.dropFirst start) n stage = fail (.codec stage) := by
  have hbuffer : ¬ runSize < n := UInt64.not_lt.mpr hroom
  rw [readExact, if_neg hbuffer, Bytes.size_dropFirst, Bytes.slice?]
  by_cases hle : start + n.toNat ≤ b.size
  · refine .inl ⟨_, if_pos hle, hle, ?_⟩
    rw [if_pos (by omega), Bytes.takeFirst_dropFirst, Bytes.dropFirst_dropFirst]
  · exact .inr ⟨if_neg hle, if_neg (by omega)⟩

/-- The next piece of a run that goes on. -/
theorem pieceSize_spec {remaining : UInt64} (hmore : remaining.toNat ≠ 0) :
    0 < remaining ∧ ∃ n, pieceSize remaining = n ∧
      n.toNat = min remaining.toNat BlockPatch.runSize ∧ 0 < n.toNat ∧ n ≤ runSize := by
  have hword : runSize.toNat = BlockPatch.runSize := rfl
  have hnumber : BlockPatch.runSize = 65536 := rfl
  refine ⟨UInt64.lt_iff_toNat_lt.mpr (Nat.pos_of_ne_zero hmore), _, rfl, ?_⟩
  rw [pieceSize, UInt64.le_iff_toNat_le]
  by_cases hlt : remaining < runSize
  · have hltNat := UInt64.lt_iff_toNat_lt.mp hlt
    rw [if_pos hlt]
    omega
  · have hleNat := mt UInt64.lt_iff_toNat_lt.mpr hlt
    rw [if_neg hlt]
    omega

theorem not_pos_of_toNat {remaining : UInt64} (h : remaining.toNat = 0) : ¬ 0 < remaining := by
  rw [UInt64.lt_iff_toNat_lt, h]
  exact Nat.lt_irrefl 0

/-- **A diff run** does what it does on numbers, and goes round no more often than its stream has
bytes. -/
theorem diffRun_follows (hold : old.size < 2 ^ 63) {rounds : Nat} {remaining : UInt64}
    {c : Cursors} (hposition : position.toInt = c.old) (hrounds : s.diff.size - c.diff < rounds) :
    Follows
      (fun out c' => out.1.toInt = c'.old ∧ out.2 = s.diff.dropFirst c'.diff ∧ c'.extra = c.extra)
      (diffRun old rounds remaining position (s.diff.dropFirst c.diff))
      (BlockPatch.diffRun s old remaining.toNat c) := by
  -- a piece is not empty, so that what is left of the stream gets shorter with the rounds
  induction rounds generalizing remaining position c with
  | zero => omega
  | succ rounds ih =>
    rw [diffRun, BlockPatch.diffRun]
    by_cases hdone : remaining.toNat = 0
    · rw [if_neg (not_pos_of_toNat hdone), if_pos hdone]
      exact .pure ⟨hposition, rfl, rfl⟩
    obtain ⟨hmore, n, hn, hmin, hpos, hroom⟩ := pieceSize_spec hdone
    rw [if_pos hmore, if_neg hdone]
    dsimp only
    -- the position behind the piece is checked before any byte is read
    have hnumber : BlockPatch.runSize = 65536 := rfl
    have hlimit : BlockPatch.positionLimit = 2 ^ 63 := rfl
    have hword := toInt_toInt64 (a := n) (by omega)
    have hlow := position.le_toInt
    rw [hn, ← hmin]
    rcases checkedAddSigned_cases position n.toInt64 with
      ⟨stop, hadd, hstop, hfits⟩ | ⟨hadd, hfits⟩ <;> rw [hword, hposition, Fits] at hfits
    case inr =>
      rw [hadd, if_pos (by omega), hposition]
      exact .fail _
    rw [hword, hposition] at hstop
    rw [hadd, if_neg (by omega)]
    dsimp only
    rcases readExact_cases s.diff c.diff hpos hroom .diffStream with
      ⟨piece, hslice, hinside, hread⟩ | ⟨hslice, hread⟩
    · have hsize := Bytes.size_of_slice? hslice
      have hsums : sums old position piece n.toNat 0 ByteArray.empty = _ :=
        sums_eq hold (by omega) (by omega) (by simp [hsize])
      have hleft := toNat_sub (a := remaining) (b := n) (by omega)
      rw [hread, hslice, pure_bind]
      dsimp only
      rw [hsums, pure_bind, hposition]
      refine .bind (.put _) fun _ _ _ => ?_
      rw [sub_eq (by omega), pure_bind, ← hleft]
      exact ih (c := { c with diff := c.diff + n.toNat, old := c.old + n.toNat }) hstop
        (by dsimp only; omega)
    · rw [hread, hslice, fail_bind]
      exact .fail _

/-- **An extra run** does what it does on numbers, and goes round no more often than its stream has
bytes. -/
theorem extraRun_follows {rounds : Nat} {remaining : UInt64} {c : Cursors}
    (hrounds : s.extra.size - c.extra < rounds) :
    Follows
      (fun out c' => out = s.extra.dropFirst c'.extra ∧ c'.diff = c.diff ∧ c'.old = c.old)
      (extraRun rounds remaining (s.extra.dropFirst c.extra))
      (BlockPatch.extraRun s remaining.toNat c) := by
  induction rounds generalizing remaining c with
  | zero => omega
  | succ rounds ih =>
    rw [extraRun, BlockPatch.extraRun]
    by_cases hdone : remaining.toNat = 0
    · rw [if_neg (not_pos_of_toNat hdone), if_pos hdone]
      exact .pure ⟨rfl, rfl, rfl⟩
    obtain ⟨hmore, n, hn, hmin, hpos, hroom⟩ := pieceSize_spec hdone
    rw [if_pos hmore, if_neg hdone]
    dsimp only
    rw [hn, ← hmin]
    rcases readExact_cases s.extra c.extra hpos hroom .extraStream with
      ⟨piece, hslice, hinside, hread⟩ | ⟨hslice, hread⟩
    · have hleft := toNat_sub (a := remaining) (b := n) (by omega)
      rw [hread, hslice, pure_bind]
      refine .bind (.put _) fun _ _ _ => ?_
      rw [sub_eq (by omega), pure_bind, ← hleft]
      exact ih (c := { c with extra := c.extra + n.toNat }) (by dsimp only; omega)
    · rw [hread, hslice, fail_bind]
      exact .fail _

/-! ## Triples -/

variable {newSize : UInt64} {offset made : Nat} {c : Cursors} {st : State}

/-- What is left of the streams is what the cursors have not read, and the words stand for the
positions. -/
structure State.At (st : State) (s : Streams) (newSize : UInt64) (offset made : Nat)
    (c : Cursors) : Prop where
  control_eq : st.control = s.control.dropFirst offset
  diff_eq : st.diff = s.diff.dropFirst c.diff
  extra_eq : st.extra = s.extra.dropFirst c.extra
  made_eq : st.made.toNat = made
  made_le : made ≤ newSize.toNat
  position_eq : st.position.toInt = c.old

/-- The three numbers of a triple. -/
theorem readSigned_triple {control triple : Bytes}
    (h : control.slice? offset BlockPatch.controlBytes = some triple) :
    ∃ add copy seek : Int64, readSigned triple 0 = pure add ∧ readSigned triple 8 = pure copy ∧
      readSigned triple 16 = pure seek ∧
      BlockPatch.controlAt control offset = .ok ⟨add.toInt, copy.toInt, seek.toInt⟩ := by
  have hsize : triple.size = 24 := Bytes.size_of_slice? h
  obtain ⟨add, hadd, hadd'⟩ := readSigned_inside (b := triple) 0 (hsize ▸ by decide) (by decide)
  obtain ⟨copy, hcopy, hcopy'⟩ := readSigned_inside (b := triple) 8 (hsize ▸ by decide) (by decide)
  obtain ⟨seek, hseek, hseek'⟩ := readSigned_inside (b := triple) 16 (hsize ▸ by decide) (by decide)
  refine ⟨add, copy, seek, hadd, hcopy, hseek, ?_⟩
  have hread₁ : SignMagnitude.read triple 0 = .ok add.toInt := hadd'
  have hread₂ : SignMagnitude.read triple 8 = .ok copy.toInt := hcopy'
  have hread₃ : SignMagnitude.read triple 16 = .ok seek.toInt := hseek'
  rw [BlockPatch.controlAt, h]
  dsimp only
  rw [hread₁, hread₂, hread₃]
  rfl

/-- **A triple** does what it does on numbers. -/
theorem step_follows (hold : old.size < 2 ^ 63) (hnew : newSize.toNat < 2 ^ 63)
    (hdiff : s.diff.size < limit) (hextra : s.extra.size < limit)
    (hst : st.At s newSize offset made c) {triple : Bytes} {add₀ copy₀ seek : Int64}
    (hadd : readSigned triple 0 = pure add₀) (hcopy : readSigned triple 8 = pure copy₀)
    (hseek : readSigned triple 16 = pure seek) :
    Follows (fun st' next => st'.At s newSize offset next.1 next.2)
      (step limit old newSize triple st)
      (BlockPatch.step s old newSize.toNat ⟨add₀.toInt, copy₀.toInt, seek.toInt⟩ made c) := by
  have hmade := hst.made_eq
  have hmadeLe := hst.made_le
  rw [step, hadd, pure_bind, hcopy, pure_bind, hseek, pure_bind, BlockPatch.step]
  have hsign : (add₀ < 0 ∨ copy₀ < 0) ↔ (add₀.toInt < 0 ∨ copy₀.toInt < 0) := by
    rw [lt_zero_iff, lt_zero_iff]
  by_cases hnegative : add₀ < 0 ∨ copy₀ < 0
  · rw [if_pos hnegative, if_pos (hsign.mp hnegative)]
    exact .fail _
  rw [if_neg hnegative, if_neg (mt hsign.mpr hnegative)]
  rw [not_or] at hnegative
  obtain ⟨haddNat, haddLt⟩ := toNat_length hnegative.1
  obtain ⟨hcopyNat, hcopyLt⟩ := toNat_length hnegative.2
  dsimp only
  -- the diff run
  have hsum := toNat_add (a := st.made) (b := add₀.toUInt64) (by omega)
  have hroom : newSize < st.made + add₀.toUInt64 ↔ _ := lt_add_iff hmade (by omega)
  rw [add_eq (by omega), pure_bind, ← haddNat, ← hcopyNat]
  by_cases hlong : newSize < st.made + add₀.toUInt64
  · rw [if_pos hlong, if_pos (hroom.mp hlong), hmade]
    exact .fail _
  rw [if_neg hlong, if_neg (mt hroom.mpr hlong), hst.diff_eq]
  refine .bind (diffRun_follows hold hst.position_eq (by omega)) ?_
  rintro ⟨position, diff⟩ c₁ ⟨hposition₁, hdiff₁, hextra₁⟩
  dsimp only at hposition₁ hdiff₁ ⊢
  -- the extra run
  rw [hmade] at hsum
  rw [hroom] at hlong
  have hsum₁ := toNat_add (a := st.made + add₀.toUInt64) (b := copy₀.toUInt64) (by omega)
  have hroom₁ : newSize < st.made + add₀.toUInt64 + copy₀.toUInt64 ↔ _ :=
    lt_add_iff hsum (by omega)
  rw [pure_bind, add_eq (by omega), pure_bind]
  by_cases hlong₁ : newSize < st.made + add₀.toUInt64 + copy₀.toUInt64
  · rw [if_pos hlong₁, if_pos (hroom₁.mp hlong₁), hsum]
    exact .fail _
  rw [if_neg hlong₁, if_neg (mt hroom₁.mpr hlong₁), hst.extra_eq, ← hextra₁]
  refine .bind (extraRun_follows (by omega)) ?_
  rintro extra c₂ ⟨hextra₂, hdiff₂, hold₂⟩
  -- the seek
  rw [hroom₁] at hlong₁
  have hlimit : BlockPatch.positionLimit = 2 ^ 63 := rfl
  rw [pure_bind]
  rcases checkedAddSigned_cases position seek with
    ⟨next, hadd, hnext, hfits⟩ | ⟨hadd, hfits⟩ <;> rw [hposition₁, ← hold₂, Fits] at hfits
  · rw [hposition₁, ← hold₂] at hnext
    rw [hadd, if_neg (by omega)]
    exact .pure ⟨hst.control_eq, by rw [hdiff₁, hdiff₂], hextra₂, by dsimp only; omega,
      by dsimp only; omega, hnext⟩
  · rw [hadd, if_pos (by omega)]
    exact .fail _

/-! ## All triples -/

/-- **All triples** do what they do on numbers. Each of them takes twenty-four bytes of the control
stream, whether it hands over any output or not. -/
theorem loop_follows (hold : old.size < 2 ^ 63) (hnew : newSize.toNat < 2 ^ 63)
    (hdiff : s.diff.size < limit) (hextra : s.extra.size < limit) {rounds : Nat}
    (hrounds : s.control.size - offset < rounds) (hst : st.At s newSize offset made c) :
    Follows (fun _ _ => True) (loop limit old newSize rounds st)
      (BlockPatch.loop s old newSize.toNat offset made c) := by
  -- not the output, which triples may leave as it is, but the control stream gets shorter
  induction rounds generalizing offset made c st with
  | zero => omega
  | succ rounds ih =>
    have hgoes : st.made < newSize ↔ made < newSize.toNat := by
      rw [UInt64.lt_iff_toNat_lt, hst.made_eq]
    rw [loop]
    by_cases hdone : newSize.toNat ≤ made
    · rw [if_neg (mt hgoes.mp (Nat.not_lt.mpr hdone)), BlockPatch.loop_of_done hdone]
      exact .pure trivial
    rw [if_pos (hgoes.mpr (Nat.lt_of_not_le hdone)), hst.control_eq]
    have hbytes : (24 : UInt64).toNat = BlockPatch.controlBytes := rfl
    have hpos : 0 < BlockPatch.controlBytes := by decide
    rcases readExact_cases s.control offset (n := 24) (by decide) (by decide) .controlStream with
      ⟨triple, hslice, hinside, hread⟩ | ⟨hslice, hread⟩
    · rw [hbytes] at hslice hinside hread
      obtain ⟨add₀, copy₀, seek, hadd, hcopy, hseek, hcontrol⟩ := readSigned_triple hslice
      have hnext : State.At
          { st with control := s.control.dropFirst (offset + BlockPatch.controlBytes) } s newSize
          (offset + BlockPatch.controlBytes) made c :=
        ⟨rfl, hst.diff_eq, hst.extra_eq, hst.made_eq, hst.made_le, hst.position_eq⟩
      rw [hread, pure_bind, BlockPatch.loop_of_ok hdone hcontrol]
      refine .bind (step_follows hold hnew hdiff hextra hnext hadd hcopy hseek) ?_
      intro st' next hst'
      exact ih (by omega) hst'
    · rw [hbytes] at hslice
      have hcontrol : BlockPatch.controlAt s.control offset = .error (.codec .controlStream) := by
        rw [BlockPatch.controlAt, hslice]
        rfl
      rw [hread, fail_bind, BlockPatch.loop_of_error hdone hcontrol]
      exact .fail _

/-! ## Whole patches -/

/-- How many bytes the three streams of a patch decode to. -/
def streamSize (P : Primitives) (patch : Bytes) : Nat :=
  match BlockPatch.Header.parse patch with
  | .ok h =>
    let s := BlockPatch.streams P patch h
    s.control.size + s.diff.size + s.extra.size
  | .error _ => 0

variable {P : Primitives} {patch : Bytes} {w : Header} {h : BlockPatch.Header} {rounds : Nat}

/-- The streams of a patch are cut out where its header says, and none of the sums overflows. -/
theorem apply_of_header (hword : parseHeader patch = pure w) (hw : w.Declares h patch) :
    apply P rounds patch old = (do
      let s := BlockPatch.streams P patch h
      loop rounds old w.newSize rounds ⟨s.control, s.diff, s.extra, 0, 0⟩
      return w.newSize) := by
  have hheader : BlockPatch.headerSize = 32 := rfl
  have hstart : (32 : UInt64).toNat = 32 := rfl
  have hcontrol := hw.control_eq
  have hdiff := hw.diff_eq
  have hinside := hw.inside
  have hfits := hw.fits
  have hcontrolEnd := toNat_add (a := 32) (b := w.controlSize) (by omega)
  have hdiffEnd := toNat_add (a := 32 + w.controlSize) (b := w.diffSize) (by omega)
  rw [apply, hword, pure_bind, add_eq (by omega), pure_bind, add_eq (by omega), pure_bind,
    slice_eq (by omega) (by omega), pure_bind, slice_eq (by omega) (by omega), pure_bind,
    sliceFrom_eq (by omega), pure_bind, hdiffEnd, hcontrolEnd, hcontrol, hdiff, hstart]
  rfl

/-- A patch with a header does what it does on numbers. -/
theorem apply_follows (hold : old.size < 2 ^ 63) (hword : parseHeader patch = pure w)
    (hparse : BlockPatch.Header.parse patch = .ok h) (hw : w.Declares h patch)
    (hrounds : streamSize P patch < rounds) :
    Follows (fun n m => n.toNat = m) (apply P rounds patch old) (BlockPatch.apply P patch old) := by
  rw [streamSize, hparse] at hrounds
  dsimp only at hrounds
  have hnew := hw.new_eq
  have hnewLt := hw.new_lt
  have hstart : State.At ⟨(BlockPatch.streams P patch h).control,
      (BlockPatch.streams P patch h).diff, (BlockPatch.streams P patch h).extra, 0, 0⟩
      (BlockPatch.streams P patch h) w.newSize 0 0 ⟨0, 0, 0⟩ := by
    refine ⟨?_, ?_, ?_, rfl, Nat.zero_le _, rfl⟩ <;> exact (Bytes.dropFirst_zero _).symm
  have hloop : Follows _ (loop rounds old w.newSize rounds _) _ :=
    loop_follows hold (by omega) (by omega) (by omega) (by omega) hstart
  rw [hnew] at hloop
  rw [apply_of_header hword hw, BlockPatch.apply, hparse]
  exact hloop.bind fun _ _ _ => .pure hnew

/-- **Applying a block patch has no faults**: whatever the bytes of the patch, it ends in a result
or an error of the patch, and no computation on words overflows, no index is out of bounds, and no
loop goes round more often than the streams have bytes. What is handed over, and the result, are
those of `BlockPatch.apply`. -/
theorem apply_faultless (P : Primitives) (rounds : Nat) (patch old : Bytes)
    (hold : old.size < 2 ^ 63) (hrounds : streamSize P patch < rounds) :
    ∃ (r : Except PatchError UInt64) (pieces : List Bytes),
      outcome (apply P rounds patch old) #[] = (r.mapError .patch, pieces.toArray) ∧
        (patch.size < 2 ^ 64 →
          (BlockPatch.apply P patch old).emission = ⟨pieces, r.map UInt64.toNat⟩) := by
  have hemission : (BlockPatch.apply P patch old).emission =
      ⟨(outcome (BlockPatch.apply P patch old) #[]).2.toList,
        (outcome (BlockPatch.apply P patch old) #[]).1⟩ := rfl
  rcases parseHeader_cases patch with ⟨w, h, hword, hparse, hw⟩ | ⟨e, hword, hparse⟩
  · obtain ⟨after, ⟨n, m, hnm, hrun, hout⟩ | ⟨e, hrun, hout⟩⟩ :=
      apply_follows hold hword hparse hw hrounds #[]
    · refine ⟨.ok n, after.toList, by rw [hrun]; rfl, fun _ => ?_⟩
      rw [hemission, hout, ← hnm]
      rfl
    · refine ⟨.error e, after.toList, by rw [hrun]; rfl, fun _ => ?_⟩
      rw [hemission, hout]
      rfl
  · refine ⟨.error e, [], ?_, fun hfits => ?_⟩
    · rw [apply, hword, fail_bind]
      rfl
    · rw [BlockPatch.apply, hparse hfits]
      rfl

/-- The streams of a patch that moves the old position as far as it goes, and then adds four bytes
there. -/
def farSamples : List Sample :=
  [⟨[0, 0, 0, 0, 0, 0, 0, 0, 0, 0, 0, 0, 0, 0, 0, 0, 255, 255, 255, 255, 255, 255, 255, 127,
      4, 0, 0, 0, 0, 0, 0, 0, 0, 0, 0, 0, 0, 0, 0, 0, 0, 0, 0, 0, 0, 0, 0, 0],
    [66, 90, 104, 57, 49, 65, 89, 38, 83, 89, 165, 255, 245, 12, 0, 0, 0, 96, 128, 204, 4, 8, 0, 0,
      0, 128, 0, 160, 0, 49, 12, 0, 201, 145, 234, 109, 137, 132, 93, 89, 226, 238, 72, 167, 10,
      18, 20, 191, 254, 161, 128]⟩,
    ⟨[0, 0, 0, 0],
      [66, 90, 104, 57, 49, 65, 89, 38, 83, 89, 56, 251, 34, 132, 0, 0, 2, 64, 0, 64, 0, 32, 0, 33,
        24, 70, 176, 187, 146, 41, 194, 132, 129, 199, 217, 20, 32]⟩,
    ⟨[], [66, 90, 104, 57, 23, 114, 69, 56, 80, 144, 0, 0, 0, 0]⟩]

/-- The patch with those streams. -/
def farPatch : Bytes :=
  BlockPatch.layout 4 (Bytes.ofList (farSamples[0].stream)) (Bytes.ofList (farSamples[1].stream))
    (Bytes.ofList (farSamples[2].stream))

theorem streamSize_farPatch : streamSize (BlockPatch.withSamples farSamples) farPatch = 52 := by
  decide +kernel

theorem apply_faultless_farPatch :
    (Bytes.ofText "old").size < 2 ^ 63 ∧
      streamSize (BlockPatch.withSamples farSamples) farPatch < 53 ∧
      ∃ (r : Except PatchError UInt64) (pieces : List Bytes),
        outcome (apply (BlockPatch.withSamples farSamples) 53 farPatch (Bytes.ofText "old")) #[] =
            (r.mapError .patch, pieces.toArray) ∧
          (farPatch.size < 2 ^ 64 →
            (BlockPatch.apply (BlockPatch.withSamples farSamples) farPatch
              (Bytes.ofText "old")).emission = ⟨pieces, r.map UInt64.toNat⟩) :=
  have hrounds : streamSize (BlockPatch.withSamples farSamples) farPatch < 53 :=
    streamSize_farPatch ▸ (by decide : 52 < 53)
  ⟨by decide, hrounds, apply_faultless _ _ _ _ (by decide) hrounds⟩

example :
    outcome (apply (BlockPatch.withSamples farSamples) 53 farPatch (Bytes.ofText "old")) #[] =
      (.error (.patch (.outOfRange (.oldPosition 4 (2 ^ 63 - 1)))), #[]) := by
  decide +kernel

end BlockUpdate.Words
