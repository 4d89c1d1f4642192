/-!
# TOML values

- `TomlValue`: what a key stands for.
- `TomlTable`: keys with their values, in the order in which they first occur.
- `TomlForm`: how a table was written, which decides what may be added to it later.
-/

namespace BlockUpdate

/-- How a table was written. -/
inductive TomlForm
  /-- In braces. -/
  | inline
  /-- Under a header of its own. -/
  | opened
  /-- As a part of the header of a table below it. -/
  | passed
  /-- As a part of a dotted key. -/
  | dotted
  deriving Repr, DecidableEq

/-- A TOML value. -/
inductive TomlValue
  | text (content : String)
  | integer (n : Int)
  /-- A number by its sign and the bits of its magnitude in double precision. -/
  | float (negative : Bool) (magnitude : Nat)
  | bool (b : Bool)
  /-- A date, a time of day, or both. -/
  | time
  | array (items : List TomlValue)
  | table (form : TomlForm) (entries : List (String × TomlValue))
  /-- The tables under headers in double brackets. -/
  | tables (elements : List (List (String × TomlValue)))

/-- Keys with their values. -/
abbrev TomlTable := List (String × TomlValue)

/-- The value of a key. -/
def TomlTable.get? (t : TomlTable) (key : String) : Option TomlValue := t.lookup key

namespace TomlValue

def text? : TomlValue → Option String
  | .text content => some content
  | _ => none

def bool? : TomlValue → Option Bool
  | .bool b => some b
  | _ => none

/-- The items of an array, however it was written. -/
def items? : TomlValue → Option (List TomlValue)
  | .array items => some items
  | .tables elements => some (elements.map (.table .opened))
  | _ => none

end TomlValue

end BlockUpdate
