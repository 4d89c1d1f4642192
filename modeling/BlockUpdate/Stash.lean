import BlockUpdate.Files.Tree
import BlockUpdate.Text.Quoted

/-!
# The stash

Blocks that a later command still needs are kept as files, named by the digest of their contents,
in a directory of their own. The names of entries are letters and digits; a temporary file begins
with a dot and is never taken for an entry.

- `Stash.open_`: makes or wipes the directory.
- `Stash.load?`, `contains`, `entrySize?`, `entries`: looking at entries.
- `Stash.storeSteps`: the steps that store an entry, in the order in which they are done. The new
  contents go to a temporary file first, which takes the entry's name when it is complete.
- `Stash.free`, `Stash.freeAll`: removing one entry or all of them.
-/

namespace BlockUpdate

/-- Why the stash refuses an operation. -/
inductive StashError
  | os (error : OsError)
  | invalidId (id : String)
  deriving Repr, DecidableEq

def StashError.message : StashError → String
  | .os error => "I/O error: " ++ error.message
  | .invalidId id => "invalid stash id: " ++ Quoted.encode id

/-- Whether a device or directory failed with an input/output error. -/
def StashError.isIo : StashError → Bool
  | .os error => error.isIo
  | .invalidId _ => false

/-- A stash directory. -/
structure Stash where
  base : Path
  /-- Whether this session made the directory or wiped it. -/
  created : Bool
  deriving Repr, DecidableEq

namespace Stash

/-- Entry names are ASCII letters and digits, at least one. -/
def validId (id : String) : Bool := !id.isEmpty && id.toList.all Char.isAlphanum

/-- Opens the stash in a directory, making the directory if it is missing. -/
def open_ (base : Path) (wipe : Bool) : FileM StashError Stash := FileM.mapError .os do
  let existed := (← get).isDirectory base
  if existed && wipe then
    FileM.removeDirectory base
  FileM.makeDirectories base
  return ⟨base, !existed || wipe⟩

/-- The file of an entry. -/
def entryPath (s : Stash) (id : String) : Except StashError Path :=
  if validId id then .ok (s.base.join id) else .error (.invalidId id)

/-- The file in which an entry is prepared. -/
def temporaryPath (s : Stash) (id : String) : Path := s.base.join ("." ++ id ++ ".partial")

/-! ## Looking -/

/-- Whether there is an entry of a name. -/
def contains (s : Stash) (t : FileTree) (id : String) : Bool :=
  match s.entryPath id with
  | .ok p => t.isFile p
  | .error _ => false

/-- The size of what has the name of an entry. -/
def entrySize? (s : Stash) (t : FileTree) (id : String) : Option Nat :=
  match s.entryPath id with
  | .ok p => t.size? p
  | .error _ => none

/-- The contents of an entry, if it is there and has the wanted size. -/
def load? (s : Stash) (t : FileTree) (id : String) (size : Nat) :
    Except StashError (Option Bytes) := do
  let p ← s.entryPath id
  match t.node p with
  | .ok (.file data) => return if data.size = size then some data else none
  | .ok .directory =>
    if FileTree.directorySize = size then
      throw (.os (.errno Errno.isDirectory))
    return none
  | .error (.errno e) =>
    if e = Errno.noEntry then
      return none
    throw (.os (.errno e))
  | .error e => throw (.os e)

/-- The names of all entries, in order. -/
def entries (s : Stash) (t : FileTree) : Except StashError (List String) :=
  match t.children s.base with
  | .error e => .error (.os e)
  | .ok found =>
    let names := found.filterMap fun
      | (name, .file _) => if validId name then some name else none
      | (_, .directory) => none
    .ok (names.mergeSort (· ≤ ·))

/-! ## Changing -/

/-- The steps that store an entry. -/
def storeSteps (s : Stash) (id : String) (path : Path) (data : Bytes) : List FileEffect :=
  let temporary := s.temporaryPath id
  [.create temporary, .append temporary data, .sync temporary, .rename temporary path,
    .sync s.base]

/-- Stores an entry, over the one that has its name. -/
def store (s : Stash) (id : String) (data : Bytes) : FileM StashError Unit := do
  let path ← FileM.look fun _ => s.entryPath id
  FileM.mapError .os (FileM.perform (s.storeSteps id path data))

/-- Removes an entry, which need not be there. -/
def free (s : Stash) (id : String) : FileM StashError Unit := do
  let path ← FileM.look fun _ => s.entryPath id
  FileM.mapError .os (FileM.removeIfPresent path)

/-- Removes the whole directory, which need not be there. -/
def freeAll (s : Stash) : FileM StashError Unit :=
  FileM.mapError .os (FileM.removeDirectoryIfPresent s.base)

end Stash

end BlockUpdate
