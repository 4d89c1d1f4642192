import BlockUpdate.Text.Blank

/-!
# Paths

A path is the list of the parts between its slashes, empty parts included, so that its text can be
given back exactly.

- `Path.ofText`, `Path.text`: between a path and its text.
- `Path.join`: a name looked up from a directory.
- `Path.parent`: the directory that holds what a path names.
-/

namespace BlockUpdate

/-- A path in a tree of files. -/
structure Path where
  parts : List String
  deriving Repr, DecidableEq

namespace Path

/-- Reads a path. -/
def ofText (text : String) : Path := ⟨Blank.fields '/' text⟩

/-- The text of a path. -/
def text (p : Path) : String := "/".intercalate p.parts

/-- Whether a path starts at the top, wherever it is used. -/
def isAbsolute (p : Path) : Bool :=
  match p.parts with
  | "" :: _ :: _ => true
  | _ => false

/-- Whether a path has no text. It names nothing. -/
def isEmpty (p : Path) : Bool := p.parts.all (·.isEmpty) && p.parts.length ≤ 1

/-- The path of a name below a directory. A name that starts at the top stands for itself, and a
slash at the end of the directory is not doubled. -/
def join (p : Path) (name : String) : Path :=
  let below := ofText name
  if below.isAbsolute ∨ p.isEmpty then below
  else if p.parts.getLast? = some "" then ⟨p.parts.dropLast ++ below.parts⟩
  else ⟨p.parts ++ below.parts⟩

/-- The directory that holds what a path names. Slashes at the end do not count. -/
def parent (p : Path) : Path :=
  ⟨((p.parts.reverse.dropWhile (·.isEmpty)).drop 1).reverse⟩

end Path

end BlockUpdate
