import BlockUpdate.Script.Error
import BlockUpdate.Text.Json.Reader

/-!
# The retry marker

The last command that is known to be fully applied, kept in a file, so that an interrupted script
can go on behind it.

- `RetryMarker.load`, `RetryMarker.save`, `RetryMarker.remove`: the marker file.
- `RetryMarker.resolve`: the position in a script up to which a resumed session skips commands.
- `RetrySkip.skips`: whether a command is skipped.
-/

namespace BlockUpdate

/-- The last command known to be fully applied. -/
structure RetryMarker where
  /-- The position of the command's line. -/
  index : Nat
  /-- The line without the blanks around it. -/
  line : String
  deriving Repr, DecidableEq

namespace RetryMarker

/-- The marker of a command. -/
def ofCommand (c : Command) : RetryMarker := ⟨c.index, c.line⟩

/-- The marker file of a partition. -/
def path (workDir : Path) (partition : String) : Path := workDir.join (partition ++ ".retry.json")

/-! ## The file -/

/-- The contents of the file. -/
def encode (m : RetryMarker) : Bytes :=
  Bytes.ofList
    (JsonValue.ofFields [("index", .ofNat m.index), ("line", .ofText m.line)]).compact

/-- The marker in the contents of a file. -/
def decode (data : Bytes) : Option RetryMarker := do
  match ← (← JsonValue.parse data).record? ["index", "line"] with
  | [index, line] => return ⟨← index.natural? Decimal.limit64, ← line.text?⟩
  | _ => none

/-- Reads the marker, if there is one. An empty file holds none. -/
def load (t : FileTree) (p : Path) : Except TransferError (Option RetryMarker) :=
  match t.read p with
  | .ok data =>
    if data.size = 0 then .ok none
    else
      match decode data with
      | some m => .ok (some m)
      | none => .error .malformed
  | .error (.errno e) => if e = Errno.noEntry then .ok none else .error (.os (.errno e))
  | .error e => .error (.os e)

/-- Writes the marker over the one before. -/
def save (p : Path) (m : RetryMarker) : FileM TransferError Unit :=
  FileM.mapError .os (FileM.overwrite p m.encode)

/-- Removes the marker, which need not be there. -/
def remove (p : Path) : FileM TransferError Unit := FileM.mapError .os (FileM.removeIfPresent p)

end RetryMarker

/-! ## Skipping -/

/-- The position up to which commands are skipped, if any are. -/
structure RetrySkip where
  last : Option Nat
  deriving Repr, DecidableEq

namespace RetrySkip

/-- Nothing is skipped. -/
def none : RetrySkip := ⟨.none⟩

/-- Finds a marker in the lines of a script: at its position, or else at the first line that is
the same. -/
def resolve (marker : Option RetryMarker) (lines : List String) : RetrySkip :=
  match marker with
  | .none => none
  | some m =>
    let isMarked (line : String) : Bool := Blank.trim line == m.line
    if (lines[m.index]?).any isMarked then ⟨some m.index⟩ else ⟨lines.findIdx? isMarked⟩

/-- Whether a command is skipped. New data has to be read again from its beginning, so the
commands that take it are never skipped. -/
def skips (s : RetrySkip) (c : Command) : Bool :=
  match s.last with
  | some last => c.index ≤ last && c.verb != .new
  | .none => false

end RetrySkip

end BlockUpdate
