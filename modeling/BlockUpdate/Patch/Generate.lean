import BlockUpdate.Patch.Block
import BlockUpdate.Patch.Match

/-!
# Generating block patches

The new data is scanned for matches in the old data. Where a match beats what the current
alignment already explains by a margin, a control triple is emitted: the previous match is
extended forward and the new one backward as far as more than half of the bytes agree, and what
lies between becomes extra bytes.

- `BlockPatch.controls`: the triples for a pair of byte strings.
- `BlockPatch.generate`: the whole patch.
-/

namespace BlockUpdate.BlockPatch

/-- A match must beat the running score by more than this to start a new run. -/
def matchMargin : Int := 8

/-- Whether both strings have a byte at the given positions, and the same one. -/
def sameAt (old : Bytes) (i : Int) (new : Bytes) (j : Int) : Bool :=
  match old.at? i, new.at? j with
  | some a, some b => a == b
  | _, _ => false

/-! ## Scanning for the next match -/

/-- Where the scan stands: the new position, the match found there, and how many bytes of the
match the current alignment explains, up to `counted`. -/
structure Scan where
  position : Int
  length : Int
  source : Int
  score : Int
  counted : Int

/-- Counts the bytes from `counted` up to `stop` that agree under an alignment. -/
def countAgreeing (old new : Bytes) (offset stop : Int) : Nat → Int → Int → Int
  | 0, _, score => score
  | fuel + 1, counted, score =>
    if counted < stop then
      countAgreeing old new offset stop fuel (counted + 1)
        (if sameAt old (counted + offset) new counted then score + 1 else score)
    else score

/-- Moves the scan on, up to `rounds` times, until a match stands out or the new data ends. -/
def advance (suffixes : Array Nat) (old new : Bytes) (offset : Int) : Nat → Scan → Scan
  | 0, s => s
  | rounds + 1, s =>
    if s.position < new.size then
      let (length, source) := Match.search suffixes old new s.position.toNat
      let stop := s.position + length
      let score :=
        countAgreeing old new offset stop (stop - s.counted).toNat s.counted s.score
      let counted := max s.counted stop
      let s := { s with length, source, score, counted }
      if (s.length = score ∧ s.length ≠ 0) ∨ score + matchMargin < s.length then s
      else
        let score := if sameAt old (s.position + offset) new s.position then score - 1 else score
        advance suffixes old new offset rounds { s with position := s.position + 1, score }
    else s

/-! ## Extending matches -/

/-- Sums up an extension: the bytes that agree among the first `i`, the best balance so far and
the length that reached it. -/
structure Extension where
  agree : Int
  bestAgree : Int
  bestLength : Int

/-- Takes one more byte into an extension that is then `i` bytes long. -/
def Extension.take (e : Extension) (same : Bool) (i : Int) : Extension :=
  let agree := if same then e.agree + 1 else e.agree
  if 2 * e.bestAgree - e.bestLength < 2 * agree - i then ⟨agree, agree, i⟩
  else { e with agree }

/-- Extends a match forward from the given positions, by at most `room` bytes. -/
def extendForward (old new : Bytes) (source position : Int) : Nat → Int → Extension → Int
  | 0, _, e => e.bestLength
  | room + 1, i, e =>
    extendForward old new source position room (i + 1)
      (e.take (sameAt old (source + i) new (position + i)) (i + 1))

/-- Extends a match backward from the given positions, by at most `room` bytes. -/
def extendBackward (old new : Bytes) (source position : Int) : Nat → Int → Extension → Int
  | 0, _, e => e.bestLength
  | room + 1, i, e =>
    extendBackward old new source position room (i + 1)
      (e.take (sameAt old (source - (i + 1)) new (position - (i + 1))) (i + 1))

/-- Where two extensions that overlap by `n` bytes part best: byte `i` of the overlap lies at
`front + i` and at `back + i` in the old data. -/
def splitOverlap (old new : Bytes) (front back position : Int) :
    Nat → Int → (balance best split : Int) → Int
  | 0, _, _, _, split => split
  | n + 1, i, balance, best, split =>
    let balance :=
      if sameAt old (front + i) new (position + i) then balance + 1 else balance
    let balance :=
      if sameAt old (back + i) new (position + i) then balance - 1 else balance
    if best < balance then
      splitOverlap old new front back position n (i + 1) balance balance (i + 1)
    else splitOverlap old new front back position n (i + 1) balance best split

/-! ## Control triples -/

/-- Triples and stream bytes emitted so far. -/
structure Output where
  controls : List Control
  diff : Bytes
  extra : Bytes

/-- The differences between `n` new bytes and the old bytes aligned with them. -/
def diffBytes (old new : Bytes) (source position : Int) : Nat → Int → Bytes → Bytes
  | 0, _, out => out
  | n + 1, i, out =>
    let b := (new.at? (position + i)).getD 0
    let o := (old.at? (source + i)).getD 0
    diffBytes old new source position n (i + 1) (out.push (b - o))

/-- Where the previous run ended, in both strings, and its alignment. -/
structure Anchor where
  position : Int
  source : Int
  offset : Int

/-- Emits the triple between the previous run and the match that a scan found. -/
def emitRun (old new : Bytes) (a : Anchor) (s : Scan) (out : Output) : Anchor × Output :=
  let room := min (s.position - a.position) (old.size - a.source)
  let front := extendForward old new a.source a.position room.toNat 0 ⟨0, 0, 0⟩
  let back :=
    if s.position < new.size then
      extendBackward old new s.source s.position
        (min (s.position - a.position) s.source).toNat 0 ⟨0, 0, 0⟩
    else 0
  let overlap := (a.position + front) - (s.position - back)
  let split :=
    if 0 < overlap then
      splitOverlap old new (a.source + front - overlap) (s.source - back)
        (s.position - back) overlap.toNat 0 0 0 0
    else 0
  let front := if 0 < overlap then front + split - overlap else front
  let back := if 0 < overlap then back - split else back
  let extraStart := a.position + front
  let extraStop := s.position - back
  let control : Control :=
    { add := front
      copy := extraStop - extraStart
      seek := (s.source - back) - (a.source + front) }
  let out :=
    { controls := control :: out.controls
      diff := diffBytes old new a.source a.position front.toNat 0 out.diff
      extra := out.extra ++ new.extract extraStart.toNat extraStop.toNat }
  (⟨s.position - back, s.source - back, s.source - s.position⟩, out)

/-- Scans the new data from a position on, where the last match found had the given length and
source. -/
def scanFrom (suffixes : Array Nat) (old new : Bytes) :
    Nat → (position length source : Int) → Anchor → Output → Output
  | 0, _, _, _, _, out => out
  | fuel + 1, position, length, source, a, out =>
    if position < new.size then
      let start := position + length
      let s := advance suffixes old new a.offset (new.size - start.toNat)
        ⟨start, length, source, 0, start⟩
      if s.length = s.score ∧ s.position ≠ new.size then
        scanFrom suffixes old new fuel s.position s.length s.source a out
      else
        let (a, out) := emitRun old new a s out
        scanFrom suffixes old new fuel s.position s.length s.source a out
    else out

/-- The triples and stream bytes that turn `old` into `new`. -/
def controls (old new : Bytes) : Output :=
  let out := scanFrom (SuffixArray.build old) old new (2 * new.size + 2) 0 0 0 ⟨0, 0, 0⟩
    ⟨[], ByteArray.empty, ByteArray.empty⟩
  { out with controls := out.controls.reverse }

/-! ## The patch -/

/-- The bytes of a control triple. -/
def Control.encode (c : Control) : Bytes :=
  SignMagnitude.encode c.add ++ SignMagnitude.encode c.copy ++ SignMagnitude.encode c.seek

/-- Generates the block patch that turns `old` into `new`. -/
def generate (P : Primitives) (old new : Bytes) : Bytes :=
  let out := controls old new
  let control := P.bzip2 (Bytes.join (out.controls.map Control.encode))
  let diff := P.bzip2 out.diff
  let extra := P.bzip2 out.extra
  magic ++ SignMagnitude.encode control.size ++ SignMagnitude.encode diff.size ++
    SignMagnitude.encode new.size ++ control ++ diff ++ extra

end BlockUpdate.BlockPatch
