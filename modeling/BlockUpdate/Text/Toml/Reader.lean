import BlockUpdate.Text.Toml.Quoted
import BlockUpdate.Text.Toml.Scalar

/-!
# Reading TOML

A document is a list of headers and entries. What the tables are that these make up is a matter of
its own; here they are only told apart.

- `TomlLine`: a header or an entry.
- `TomlLine.readAll?`: the headers and entries of a document.
-/

namespace BlockUpdate

/-- A header or an entry of a document. Keys are given by their parts. -/
inductive TomlLine
  /-- A header in single brackets. -/
  | header (path : List String)
  /-- A header in double brackets. -/
  | element (path : List String)
  | entry (path : List String) (value : TomlValue)

namespace TomlReader

open TomlText (isBlank isControl)

/-! ## Between the tokens -/

/-- Drops the blanks in front. -/
def skipBlanks (input : List Char) : List Char := input.dropWhile isBlank

/-- Drops blanks, line ends and comments in front; `inside` says whether a comment is under way.
A character that cannot stand in a comment is left there for the next token to fail. -/
def skipLines (inside : Bool) : List Char → List Char
  | [] => []
  | '\n' :: rest => skipLines false rest
  | '\r' :: '\n' :: rest => skipLines false rest
  | c :: rest =>
    if inside then if isControl c then c :: rest else skipLines true rest
    else if isBlank c then skipLines false rest
    else if c = '#' then skipLines true rest
    else c :: rest

/-- What follows the end of a line, before which blanks and a comment may stand. -/
def lineEnd? (input : List Char) : Option (List Char) :=
  let rest := match skipBlanks input with
    | '#' :: comment => comment.dropWhile fun c => !isControl c
    | rest => rest
  match rest with
  | [] => some []
  | '\n' :: rest | '\r' :: '\n' :: rest => some rest
  | _ => none

/-! ## Keys -/

def isBare (c : Char) : Bool := c.isAlphanum || c == '-' || c == '_'

/-- One part of a key. -/
def part? (input : List Char) : Option (String × List Char) :=
  match input with
  | '"' :: _ | '\'' :: _ => TomlText.readLine? input
  | _ =>
    match input.takeWhile isBare with
    | [] => none
    | found => some (String.ofList found, input.drop found.length)

/-- A key of at most so many parts, with blanks around each. -/
def keyOf? : Nat → List Char → Option (List String × List Char)
  | 0, _ => none
  | limit + 1, input => do
    let (part, rest) ← part? (skipBlanks input)
    match skipBlanks rest with
    | '.' :: rest =>
      let (parts, rest) ← keyOf? limit rest
      return (part :: parts, rest)
    | rest => return ([part], rest)

/-- How many parts a key may have, and how deep values may lie within each other. -/
def maxDepth : Nat := 79

/-- A key, and what follows it. -/
def key? (input : List Char) : Option (List String × List Char) := keyOf? maxDepth input

/-- A key and the equals sign behind it. -/
def keyBefore? (input : List Char) : Option (List String × List Char) := do
  let (path, rest) ← key? input
  match rest with
  | '=' :: rest => return (path, skipBlanks rest)
  | _ => none

end TomlReader

/-! ## Tables -/

namespace TomlTable

/-- The table with the value of a key replaced. -/
def replace (key : String) (value : TomlValue) (t : TomlTable) : TomlTable :=
  t.map fun (other, found) => if other = key then (other, value) else (other, found)

/-- Adds an entry under a new key. -/
def add? (key : String) (value : TomlValue) (t : TomlTable) : Option TomlTable :=
  if (t.get? key).isSome then none else some (t ++ [(key, value)])

/-- Changes the table that a path leads to; those that are missing on the way are made in the given
form. Behind double brackets the way leads on in the last table. No way leads into braces, and the
parts of a dotted key do not lead into a table with a header of its own. -/
def changeAt (made : TomlForm) (change : TomlForm → TomlTable → Option TomlTable) :
    List String → TomlForm → TomlTable → Option TomlTable
  | [], form, t => change form t
  | key :: rest, _, t =>
    match t.get? key with
    | none => do
      let below ← changeAt made change rest made []
      return t ++ [(key, .table made below)]
    | some (.table form below) =>
      if form = .inline ∨ (made = .dotted ∧ form = .opened) then none
      else do return replace key (.table form (← changeAt made change rest form below)) t
    | some (.tables elements) => do
      let below ← changeAt made change rest .opened (elements.getLast?.getD [])
      return replace key (.tables (elements.dropLast ++ [below])) t
    | some _ => none

/-- Adds an entry under a dotted key. The table that it comes to stand in was made by dotted keys
too, unless the key has one part. -/
def insert? (path : List String) (value : TomlValue) (form : TomlForm) (t : TomlTable) :
    Option TomlTable :=
  match path.getLast? with
  | none => none
  | some key =>
    let way := path.dropLast
    changeAt .dotted
      (fun reached t => if way = [] ∨ reached = .dotted then add? key value t else none) way form t

/-- The table of entries in braces. -/
def ofEntries? (entries : List (List String × TomlValue)) : Option TomlTable :=
  entries.foldlM (fun t (path, value) => insert? path value .opened t) []

/-- Opens a table by its header. It may have been passed on the way to another one before. -/
def open? (path : List String) (t : TomlTable) : Option TomlTable :=
  match path.getLast? with
  | none => none
  | some key =>
    changeAt .passed
      (fun _ t =>
        match t.get? key with
        | none => some (t ++ [(key, .table .opened [])])
        | some (.table .passed below) => some (replace key (.table .opened below) t)
        | some _ => none)
      path.dropLast .opened t

/-- Opens one more table under a header in double brackets. -/
def openElement? (path : List String) (t : TomlTable) : Option TomlTable :=
  match path.getLast? with
  | none => none
  | some key =>
    changeAt .passed
      (fun _ t =>
        match t.get? key with
        | none => some (t ++ [(key, .tables [[]])])
        | some (.tables elements) => some (replace key (.tables (elements ++ [[]])) t)
        | some _ => none)
      path.dropLast .opened t

end TomlTable

/-! ## Values -/

namespace TomlReader

mutual

/-- A value and what follows it; values lie within each other at most `depth` deep. -/
def value? : Nat → Nat → List Char → Option (TomlValue × List Char)
  | 0, _, _ => none
  | fuel + 1, depth, input =>
    match input with
    | '"' :: _ | '\'' :: _ => (TomlText.read? input).map fun (content, rest) => (.text content, rest)
    | '[' :: rest =>
      match depth with
      | 0 => none
      | depth + 1 => (items? fuel depth rest).map fun (items, rest) => (.array items, rest)
    | '\x7b' :: rest =>
      match depth with
      | 0 => none
      | depth + 1 => do
        let (entries, rest) ← match skipBlanks rest with
          | '\x7d' :: rest => some ([], rest)
          | rest => entries? fuel depth rest
        return (.table .inline (← TomlTable.ofEntries? entries), rest)
    | _ => TomlScalar.read? input

/-- The items up to the end of an array. A comma may stand behind the last one. -/
def items? : Nat → Nat → List Char → Option (List TomlValue × List Char)
  | 0, _, _ => none
  | fuel + 1, depth, input =>
    match skipLines false input with
    | ']' :: rest => some ([], rest)
    | rest => do
      let (item, rest) ← value? fuel depth rest
      match skipLines false rest with
      | ']' :: rest => return ([item], rest)
      | ',' :: rest =>
        let (items, rest) ← items? fuel depth rest
        return (item :: items, rest)
      | _ => none

/-- The entries up to the end of a table in braces, at least one. -/
def entries? : Nat → Nat → List Char → Option (List (List String × TomlValue) × List Char)
  | 0, _, _ => none
  | fuel + 1, depth, input => do
    let (path, rest) ← keyBefore? input
    let (value, rest) ← value? fuel depth rest
    match skipBlanks rest with
    | '\x7d' :: rest => return ([(path, value)], rest)
    | ',' :: rest =>
      let (entries, rest) ← entries? fuel depth rest
      return ((path, value) :: entries, rest)
    | _ => none

end

end TomlReader

/-! ## Documents -/

namespace TomlLine

open TomlReader

/-- A header or an entry at the start of a line, and what follows the line. -/
def read? (input : List Char) : Option (TomlLine × List Char) :=
  match input with
  | '[' :: '[' :: rest => do
    let (path, rest) ← key? rest
    match rest with
    | ']' :: ']' :: rest => return (.element path, ← lineEnd? rest)
    | _ => none
  | '[' :: rest => do
    let (path, rest) ← key? rest
    match rest with
    | ']' :: rest => return (.header path, ← lineEnd? rest)
    | _ => none
  | _ => do
    let (path, rest) ← keyBefore? input
    let (value, rest) ← value? (2 * rest.length + 2) maxDepth rest
    return (.entry path value, ← lineEnd? rest)

/-- The headers and entries of a text, no more than `fuel` of them. -/
def readFrom? : Nat → List Char → Option (List TomlLine)
  | 0, _ => none
  | fuel + 1, input =>
    match skipLines false input with
    | [] => some []
    | input => do
      let (line, rest) ← read? input
      return line :: (← readFrom? fuel rest)

/-- The headers and entries of a document. -/
def readAll? (text : String) : Option (List TomlLine) :=
  let input := match text.toList with
    | '\ufeff' :: rest => rest
    | input => input
  readFrom? (input.length + 1) input

end TomlLine

/-- A document under construction: its tables, and the path of the last header. -/
structure TomlDocument where
  root : TomlTable := []
  path : List String := []

namespace TomlDocument

/-- Adds a header or an entry. An entry belongs to the table of the last header. -/
def add? (d : TomlDocument) : TomlLine → Option TomlDocument
  | .header path => do return ⟨← TomlTable.open? path d.root, path⟩
  | .element path => do return ⟨← TomlTable.openElement? path d.root, path⟩
  | .entry path value => do
    let root ← TomlTable.changeAt .passed (TomlTable.insert? path value) d.path .opened d.root
    return { d with root }

/-- The tables of a document. -/
def parse (text : String) : Option TomlTable := do
  let d ← (← TomlLine.readAll? text).foldlM add? {}
  return d.root

end TomlDocument

end BlockUpdate
