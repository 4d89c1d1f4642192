import BlockUpdate.Script.Error
import BlockUpdate.Text.Json.Reader
import BlockUpdate.Text.Timestamp

/-!
# The record of finished partitions

A file that says which partitions a session finished, so that a session which is resumed passes
over them.

- `PartitionRecord.open_`: reads the record of a directory, or starts an empty one.
- `PartitionRecord.mark`, `PartitionRecord.clear`: what changes it.
-/

namespace BlockUpdate

/-- What is known about a partition. -/
structure PartitionStatus where
  updated : Bool
  /-- When that was recorded. -/
  time : Timestamp
  deriving Repr, DecidableEq

/-- The record, and where it is kept. -/
structure PartitionRecord where
  path : Path
  /-- The partitions in the order of their names. -/
  entries : List (String × PartitionStatus)
  deriving Repr, DecidableEq

namespace PartitionRecord

/-- The file of the record in a directory. -/
def fileName : String := "partition_record.json"

/-! ## Entries -/

/-- Puts an entry at its place in the order of names, over the one of that name. -/
def insert (name : String) (status : PartitionStatus) :
    List (String × PartitionStatus) → List (String × PartitionStatus)
  | [] => [(name, status)]
  | (other, found) :: rest =>
    if name < other then (name, status) :: (other, found) :: rest
    else if name = other then (name, status) :: rest
    else (other, found) :: insert name status rest

/-- The status of a partition. -/
def status (r : PartitionRecord) (partition : String) : Option PartitionStatus :=
  r.entries.lookup partition

def isUpdated (r : PartitionRecord) (partition : String) : Bool :=
  (r.status partition).any (·.updated)

/-! ## The file -/

/-- A status in the file. -/
def statusValue (s : PartitionStatus) : JsonValue :=
  .ofFields [("updated", .bool s.updated), ("updated_at", .ofText s.time.text)]

/-- The contents of the file. -/
def encode (entries : List (String × PartitionStatus)) : Bytes :=
  Bytes.ofList
    (JsonValue.ofFields (entries.map fun (name, s) => (name, statusValue s))).pretty

/-- The status that a value denotes. -/
def decodeStatus (value : JsonValue) : Option PartitionStatus := do
  match ← value.record? ["updated", "updated_at"] with
  | [updated, time] => return ⟨← updated.bool?, ← Timestamp.parse (← time.text?)⟩
  | _ => none

/-- The entries in the contents of a file; the last of several with one name counts. -/
def decode (data : Bytes) : Option (List (String × PartitionStatus)) := do
  let fields ← (← JsonValue.parse data).entries?
  fields.foldlM
    (fun entries (name, value) => do return insert name (← decodeStatus value) entries) []

/-- Reads the record of a directory. -/
def open_ (t : FileTree) (workDir : Path) : Except TransferError PartitionRecord :=
  let path := workDir.join fileName
  match t.read path with
  | .ok data =>
    match decode data with
    | some entries => .ok ⟨path, entries⟩
    | none => .error .malformed
  | .error (.errno e) =>
    if e = Errno.noEntry then .ok ⟨path, []⟩ else .error (.os (.errno e))
  | .error e => .error (.os e)

/-- Records a partition and writes the file. -/
def mark (r : PartitionRecord) (partition : String) (updated : Bool) (now : Timestamp) :
    FileM TransferError PartitionRecord := do
  let r := { r with entries := insert partition ⟨updated, now⟩ r.entries }
  FileM.mapError .os (FileM.overwrite r.path (encode r.entries))
  return r

/-- Forgets every partition and removes the file, which need not be there. -/
def clear (r : PartitionRecord) : FileM TransferError PartitionRecord := do
  FileM.mapError .os (FileM.removeIfPresent r.path)
  return { r with entries := [] }

end PartitionRecord

end BlockUpdate
