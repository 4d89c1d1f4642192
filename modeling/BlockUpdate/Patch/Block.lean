import BlockUpdate.Patch.Emission
import BlockUpdate.Patch.Field
import BlockUpdate.Primitives

/-!
# Applying block patches

A block patch is a header and three compressed streams: control triples, diff bytes and extra
bytes. Each triple `(add, copy, seek)` adds `add` diff bytes to the old bytes at the running
position, then copies `copy` extra bytes, then moves the position by `seek`.

- `BlockPatch.Header.parse`: the header, with the lengths that it declares checked.
- `BlockPatch.apply`: the output, in runs of at most 64 KiB.
- `BlockPatch.contents`: the parts of a patch, decoded but not applied.
-/

namespace BlockUpdate.BlockPatch

/-- The bytes that begin a block patch. -/
def magic : Bytes := Bytes.ofText "BSDIFF40"

/-- Size of the header: the magic and three lengths. -/
def headerSize : Nat := 32

/-- Output leaves in runs of at most this size. -/
def runSize : Nat := 65536

/-- One more than the largest position. -/
def positionLimit : Int := 2 ^ 63

/-! ## The header -/

/-- The lengths that a block patch declares. -/
structure Header where
  controlSize : Nat
  diffSize : Nat
  newSize : Nat
  deriving Repr, DecidableEq

/-- Reads and checks the header of a patch. -/
def Header.parse (patch : Bytes) : Except PatchError Header := do
  if patch.size < headerSize then
    throw (.corruptHeader (.shortHeader patch.size))
  if patch.takeFirst 8 ≠ magic then
    throw (.corruptHeader .badBlockMagic)
  let control ← SignMagnitude.read patch 8
  let diff ← SignMagnitude.read patch 16
  let new ← SignMagnitude.read patch 24
  if control < 0 ∨ diff < 0 ∨ new < 0 then
    throw (.corruptHeader (.negativeLength control diff new))
  if patch.size < headerSize + control.toNat + diff.toNat then
    throw (.corruptHeader (.longStreams patch.size))
  return ⟨control.toNat, diff.toNat, new.toNat⟩

/-- The output size that a patch declares. -/
def newSize (patch : Bytes) : Except PatchError Nat :=
  (Header.parse patch).map (·.newSize)

/-! ## The streams -/

/-- What the three streams of a patch decode to. A stream that breaks off yields what precedes
the break. -/
structure Streams where
  control : Bytes
  diff : Bytes
  extra : Bytes

/-- Decodes the streams of a patch. -/
def streams (P : Primitives) (patch : Bytes) (h : Header) : Streams :=
  let controlEnd := headerSize + h.controlSize
  let diffEnd := controlEnd + h.diffSize
  { control := (P.bunzip2 (patch.extract headerSize controlEnd)).bytes
    diff := (P.bunzip2 (patch.extract controlEnd diffEnd)).bytes
    extra := (P.bunzip2 (patch.dropFirst diffEnd)).bytes }

/-- A control triple. -/
structure Control where
  add : Int
  copy : Int
  seek : Int
  deriving Repr, DecidableEq

/-- Size of a control triple. -/
def controlBytes : Nat := 24

/-- The control triple at an offset, if the stream holds it. -/
def controlAt (control : Bytes) (offset : Nat) : Except PatchError Control := do
  let some triple := control.slice? offset controlBytes
    | throw (.codec .controlStream)
  return ⟨← SignMagnitude.read triple 0, ← SignMagnitude.read triple 8,
    ← SignMagnitude.read triple 16⟩

theorem offset_le_of_controlAt {control : Bytes} {offset : Nat} {t : Control}
    (h : controlAt control offset = .ok t) : offset + controlBytes ≤ control.size := by
  by_cases hle : offset + controlBytes ≤ control.size
  · exact hle
  · have hnone : control.slice? offset controlBytes = none := if_neg hle
    rw [controlAt, hnone] at h
    cases h

/-! ## Runs -/

/-- Adds the old bytes from `position` on to `n` diff bytes from index `i` on; there is nothing to
add outside the old data. -/
def addOld (old : Bytes) (position : Int) (diff : Bytes) : Nat → Nat → Bytes → Bytes
  | 0, _, out => out
  | n + 1, i, out =>
    let b := diff.get! i
    let sum := match old.at? (position + i) with
      | some o => b + o
      | none => b
    addOld old position diff n (i + 1) (out.push sum)

/-- How far the diff and extra streams were read, and the old position. -/
structure Cursors where
  diff : Nat
  extra : Nat
  old : Int
  deriving Repr, DecidableEq

/-- Emits `remaining` bytes of a diff run. -/
def diffRun (s : Streams) (old : Bytes) (remaining : Nat) (c : Cursors) : Emit Cursors :=
  if remaining = 0 then return c
  else do
    let n := min remaining runSize
    if positionLimit ≤ c.old + n then
      throw (.outOfRange (.oldPosition n c.old))
    let some piece := s.diff.slice? c.diff n
      | throw (.codec .diffStream)
    emit (addOld old c.old piece n 0 ByteArray.empty)
    diffRun s old (remaining - n) { c with diff := c.diff + n, old := c.old + n }
termination_by remaining
decreasing_by
  have : 0 < runSize := by decide
  omega

/-- Emits `remaining` bytes of an extra run. -/
def extraRun (s : Streams) (remaining : Nat) (c : Cursors) : Emit Cursors :=
  if remaining = 0 then return c
  else do
    let n := min remaining runSize
    let some piece := s.extra.slice? c.extra n
      | throw (.codec .extraStream)
    emit piece
    extraRun s (remaining - n) { c with extra := c.extra + n }
termination_by remaining
decreasing_by
  have : 0 < runSize := by decide
  omega

/-- Runs one triple at output position `made`; gives the new output position and cursors. -/
def step (s : Streams) (old : Bytes) (newSize : Nat) (t : Control) (made : Nat) (c : Cursors) :
    Emit (Nat × Cursors) := do
  if t.add < 0 ∨ t.copy < 0 then
    throw (.corruptHeader (.negativeRun t.add t.copy))
  let add := t.add.toNat
  let copy := t.copy.toNat
  if newSize < made + add then
    throw (.outOfRange (.diffRun add made newSize))
  let c ← diffRun s old add c
  let made := made + add
  if newSize < made + copy then
    throw (.outOfRange (.extraRun copy made newSize))
  let c ← extraRun s copy c
  let made := made + copy
  let position := c.old + t.seek
  if position < -positionLimit ∨ positionLimit ≤ position then
    throw (.corruptHeader (.seekOverflow t.seek))
  return (made, { c with old := position })

/-- Runs triples from an offset of the control stream on until the output is complete. Every round
reads a triple, so the loop ends even if triples produce no output. -/
def loop (s : Streams) (old : Bytes) (newSize : Nat) (offset made : Nat) (c : Cursors) :
    Emit Unit :=
  if newSize ≤ made then return
  else
    match h : controlAt s.control offset with
    | .error e => throw e
    | .ok t =>
      have := offset_le_of_controlAt h
      do
        let (made, c) ← step s old newSize t made c
        loop s old newSize (offset + controlBytes) made c
termination_by s.control.size - offset
decreasing_by
  have : 0 < controlBytes := by decide
  omega

/-- Applies a block patch to old data; gives the number of bytes emitted. -/
def apply (P : Primitives) (patch old : Bytes) : Emit Nat := do
  let h ← Emit.ofExcept (Header.parse patch)
  loop (streams P patch h) old h.newSize 0 0 ⟨0, 0, 0⟩
  return h.newSize

/-! ## Looking into a patch -/

/-- The parts of a patch. -/
structure Contents where
  newSize : Nat
  controls : List Control
  diff : Bytes
  extra : Bytes

/-- The triples of a control stream. -/
def controlsOf (control : Bytes) : List Control :=
  (List.range (control.size / controlBytes)).filterMap fun i =>
    (controlAt control (controlBytes * i)).toOption

/-- Decodes the parts of a patch. -/
def contents (P : Primitives) (patch : Bytes) : Except PatchError Contents := do
  let h ← Header.parse patch
  let s := streams P patch h
  return ⟨h.newSize, controlsOf s.control, s.diff, s.extra⟩

end BlockUpdate.BlockPatch
