import BlockUpdate.Files.Tree
import BlockUpdate.Package.Error

/-!
# Packages and their members

An update package is a collection of named byte strings.

- `MemberName.validate`: the names that stay inside a package.
- `Package.ofDirectory`, `Package.ofList`: packages in a directory and in memory.
-/

namespace BlockUpdate

/-- Accepts names that stay inside a package: not empty, not from the top, and never upwards. -/
def MemberName.validate (name : String) : Except NameFault Unit :=
  let parts := (Path.ofText name).parts
  if name.isEmpty then .error .empty
  else if parts.head? = some "" then .error (.absolute name)
  else if parts.contains ".." then .error (.escapes name)
  else .ok ()

/-- Read access to the members of an update package. -/
structure Package where
  /-- The contents of a member. -/
  read : String → Except PackageError Bytes

namespace Package

/-- The package whose members are the files below a directory. -/
def ofDirectory (t : FileTree) (root : Path) : Package where
  read name := do
    (MemberName.validate name).mapError .invalidName
    let p := root.join name
    if t.isFile p then (t.read p).mapError .os else throw (.notFound name)

/-- The package with the given members; the last of several with one name counts. -/
def ofList (members : List (String × Bytes)) : Package where
  read name := do
    (MemberName.validate name).mapError .invalidName
    match members.reverse.lookup name with
    | some data => return data
    | none => throw (.notFound name)

end Package

end BlockUpdate
