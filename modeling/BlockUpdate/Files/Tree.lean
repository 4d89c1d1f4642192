import BlockUpdate.Bytes
import BlockUpdate.Files.Path
import BlockUpdate.OsError

/-!
# Trees of files

What the work of an update finds and leaves in its directories: files and directories by where
they are. The operations fail as those of a file system do, and each failure is the first one met
on the way from the top.

- `FileTree.get?`: what is at a place; `put`, `erase`, `eraseBelow` change it.
- `FileTree.locate`: the place that a path leads to.
- `FileTree.read`, `isFile`, `isDirectory`, `size?`, `children`: looking at a path.
- `FileEffect`: the single steps in which a file is replaced. An interruption falls between two
  of them, or inside one that appends.
- `FileM`: computations on a tree; what they did before a failure stays.

**Main statements**: `get?_erase`, `get?_put`, `get?_eraseBelow`.
-/

namespace BlockUpdate

/-- The names on the way from the top to a file or directory. -/
abbrev Place := List String

/-- What is at a place. -/
inductive Node
  | file (data : Bytes)
  | directory
  deriving DecidableEq

/-- Files and directories by place. The top itself is always a directory. -/
structure FileTree where
  nodes : List (Place × Node) := []

namespace FileTree

/-! ## Places -/

/-- What is at a place. -/
def get? (t : FileTree) (place : Place) : Option Node :=
  if place = [] then some .directory else t.nodes.lookup place

/-- The tree with a node at a place. -/
def put (t : FileTree) (place : Place) (node : Node) : FileTree :=
  ⟨(place, node) :: t.nodes.filter (·.1 ≠ place)⟩

/-- The tree without the node at a place. -/
def erase (t : FileTree) (place : Place) : FileTree := ⟨t.nodes.filter (·.1 ≠ place)⟩

/-- The tree without a place and everything below it. -/
def eraseBelow (t : FileTree) (place : Place) : FileTree :=
  ⟨t.nodes.filter fun node => !place.isPrefixOf node.1⟩

theorem lookup_filter (nodes : List (Place × Node)) (keep : Place → Bool) (place : Place) :
    (nodes.filter fun node => keep node.1).lookup place =
      if keep place then nodes.lookup place else none := by
  induction nodes with
  | nil => simp
  | cons entry rest ih =>
    obtain ⟨at_, found⟩ := entry
    rw [List.filter_cons]
    by_cases heq : place = at_
    · subst heq
      cases hkeep : keep place with
      | true => simp
      | false => simpa [hkeep] using ih
    · have hne : (place == at_) = false := beq_eq_false_iff_ne.mpr heq
      cases hkeep : keep at_ with
      | true => simpa [List.lookup_cons, hne] using ih
      | false => simpa [List.lookup_cons, hne] using ih

theorem get?_erase (t : FileTree) {place : Place} (h : place ≠ []) (other : Place) :
    (t.erase place).get? other = if other = place then none else t.get? other := by
  rw [get?, erase, lookup_filter t.nodes (fun p => decide (p ≠ place)) other]
  by_cases heq : other = place
  · simp [heq, h]
  · simp [heq, get?]

theorem get?_put (t : FileTree) {place : Place} (h : place ≠ []) (node : Node) (other : Place) :
    (t.put place node).get? other = if other = place then some node else t.get? other := by
  by_cases heq : other = place
  · simp [get?, put, heq, h]
  · have key := get?_erase t h other
    have hne : (other == place) = false := beq_eq_false_iff_ne.mpr heq
    rw [if_neg heq] at key ⊢
    rw [← key]
    simp only [get?, put, erase, List.lookup_cons, hne]

theorem get?_eraseBelow (t : FileTree) {place : Place} (h : place ≠ []) (other : Place) :
    (t.eraseBelow place).get? other =
      if place.isPrefixOf other then none else t.get? other := by
  rw [get?, eraseBelow, lookup_filter t.nodes (fun p => !place.isPrefixOf p) other]
  cases hbelow : place.isPrefixOf other with
  | false => simp [get?]
  | true =>
    have htop : other ≠ [] := by
      rintro rfl
      cases place with
      | nil => exact h rfl
      | cons name rest => cases hbelow
    simp [htop]

/-! ## Following paths -/

/-- Names longer than this many bytes are refused. -/
def maxName : Nat := 255

/-- Follows parts from a place on. Every part is looked up in a directory; the last one need not
be there. -/
def follow (t : FileTree) : List String → Place → Except OsError Place
  | [], place => .ok place
  | part :: rest, place =>
    match t.get? place with
    | none => .error (.errno Errno.noEntry)
    | some (.file _) => .error (.errno Errno.notDirectory)
    | some .directory =>
      if part = "" ∨ part = "." then follow t rest place
      else if part = ".." then follow t rest place.dropLast
      else if maxName < part.utf8ByteSize then .error (.errno Errno.nameTooLong)
      else follow t rest (place ++ [part])

/-- The place that a path leads to. -/
def locate (t : FileTree) (p : Path) : Except OsError Place :=
  if p.parts.any (·.contains '\x00') then .error .nulInName
  else if p.isEmpty then .error (.errno Errno.noEntry)
  else t.follow p.parts []

/-- What is at a path. -/
def node (t : FileTree) (p : Path) : Except OsError Node := do
  let place ← t.locate p
  match t.get? place with
  | some found => return found
  | none => throw (.errno Errno.noEntry)

/-! ## Looking -/

def isFile (t : FileTree) (p : Path) : Bool :=
  match t.node p with
  | .ok (.file _) => true
  | _ => false

def isDirectory (t : FileTree) (p : Path) : Bool :=
  match t.node p with
  | .ok .directory => true
  | _ => false

/-- The size that is reported for a directory. -/
def directorySize : Nat := 4096

/-- The size of what is at a path. -/
def size? (t : FileTree) (p : Path) : Option Nat :=
  match t.node p with
  | .ok (.file data) => some data.size
  | .ok .directory => some directorySize
  | .error _ => none

/-- The contents of a file. -/
def read (t : FileTree) (p : Path) : Except OsError Bytes := do
  match ← t.node p with
  | .file data => return data
  | .directory => throw (.errno Errno.isDirectory)

/-- The names in a directory, with what they name. -/
def children (t : FileTree) (p : Path) : Except OsError (List (String × Node)) := do
  let place ← t.locate p
  match t.get? place with
  | none => throw (.errno Errno.noEntry)
  | some (.file _) => throw (.errno Errno.notDirectory)
  | some .directory =>
    return t.nodes.filterMap fun (at_, found) =>
      match at_.getLast? with
      | some name => if at_.dropLast = place then some (name, found) else none
      | none => none

end FileTree

/-! ## Steps -/

/-- One step in which files are changed. -/
inductive FileEffect
  /-- Makes an empty file, or empties the one that is there. -/
  | create (path : Path)
  /-- Adds data at the end of a file. -/
  | append (path : Path) (data : Bytes)
  /-- Waits until a file or directory has reached the medium. -/
  | sync (path : Path)
  /-- Moves a file over another one. -/
  | rename (source target : Path)
  deriving DecidableEq

/-- The tree after a step. -/
def FileTree.after (t : FileTree) : FileEffect → Except OsError FileTree
  | .create p => do
    let place ← t.locate p
    match t.get? place with
    | some .directory => throw (.errno Errno.isDirectory)
    | _ => return t.put place (.file ByteArray.empty)
  | .append p data => do
    let place ← t.locate p
    match t.get? place with
    | some (.file old) => return t.put place (.file (old ++ data))
    | some .directory => throw (.errno Errno.isDirectory)
    | none => throw (.errno Errno.noEntry)
  | .sync p => do
    let _ ← t.node p
    return t
  | .rename source target => do
    let old ← t.locate source
    let new ← t.locate target
    match t.get? old, t.get? new with
    | none, _ => throw (.errno Errno.noEntry)
    | _, some .directory => throw (.errno Errno.isDirectory)
    | some moved, _ => return (t.erase old).put new moved

/-- Computations on a tree of files. -/
abbrev FileM (ε : Type) := ExceptT ε (StateM FileTree)

namespace FileM

/-- Looks at the tree. -/
def look {ε α : Type} (f : FileTree → Except ε α) : FileM ε α :=
  ExceptT.mk (fun t => (f t, t))

/-- Changes the tree, or leaves it as it is. -/
def change {ε : Type} (f : FileTree → Except ε FileTree) : FileM ε Unit :=
  ExceptT.mk (fun t =>
    match f t with
    | .ok t' => (.ok (), t')
    | .error e => (.error e, t))

/-- Renames the errors of a computation. -/
def mapError {ε ε' α : Type} (f : ε → ε') (x : FileM ε α) : FileM ε' α :=
  ExceptT.mk (fun t =>
    match x.run t with
    | (.ok a, t) => (.ok a, t)
    | (.error e, t) => (.error (f e), t))

/-- Runs steps one after the other. -/
def perform (steps : List FileEffect) : FileM OsError Unit :=
  steps.forM fun step => change (·.after step)

/-- The steps that replace the contents of a file where it is. -/
def overwriteSteps (p : Path) (data : Bytes) : List FileEffect :=
  [.create p, .append p data, .sync p]

/-- Replaces the contents of a file where it is. -/
def overwrite (p : Path) (data : Bytes) : FileM OsError Unit := perform (overwriteSteps p data)

/-- Removes a file. -/
def remove (p : Path) : FileM OsError Unit :=
  change fun t => do
    let place ← t.locate p
    match t.get? place with
    | none => throw (.errno Errno.noEntry)
    | some .directory => throw (.errno Errno.isDirectory)
    | some (.file _) => return t.erase place

/-- Removes a file, which need not be there. -/
def removeIfPresent (p : Path) : FileM OsError Unit := tolerateAbsence (remove p)
where
  /-- Takes the absence of a file for success. -/
  tolerateAbsence (x : FileM OsError Unit) : FileM OsError Unit :=
    ExceptT.mk (fun t =>
      match x.run t with
      | (.error (.errno e), t) =>
        if e = Errno.noEntry then (.ok (), t) else (.error (.errno e), t)
      | result => result)

/-- Makes the directories on the way along parts. -/
def makeDirectoriesFrom : List String → Place → FileM OsError Unit
  | [], _ => return
  | part :: rest, place => do
    let next ← look (·.follow [part] place)
    match (← get).get? next with
    | some .directory => makeDirectoriesFrom rest next
    | some (.file _) =>
      if rest.isEmpty then
        throw (.errno Errno.alreadyExists)
      else
        throw (.errno Errno.notDirectory)
    | none =>
      modify (·.put next .directory)
      makeDirectoriesFrom rest next

/-- Makes a directory and all directories above it that are missing. -/
def makeDirectories (p : Path) : FileM OsError Unit := do
  if p.parts.any (·.contains '\x00') then
    throw .nulInName
  makeDirectoriesFrom (p.parts.filter (· ≠ "")) []

/-- Removes a directory and everything below it. -/
def removeDirectory (p : Path) : FileM OsError Unit :=
  change fun t => do
    let place ← t.locate p
    match t.get? place with
    | none => throw (.errno Errno.noEntry)
    | some (.file _) => throw (.errno Errno.notDirectory)
    | some .directory => return t.eraseBelow place

/-- Removes a directory and everything below it, if it is there. -/
def removeDirectoryIfPresent (p : Path) : FileM OsError Unit :=
  removeIfPresent.tolerateAbsence (removeDirectory p)

end FileM

end BlockUpdate
