/-!
# Blanks and fields

Lines are cut at white space and at separator characters.

- `Blank.isBlank`: the characters with the Unicode property White_Space.
- `Blank.trim`: a text without the blanks at its ends.
- `Blank.words`: the maximal runs of other characters.
- `Blank.fields`: the parts between separators, empty ones included.
- `Blank.lines`: the lines of a text, each without its line end.
-/

namespace BlockUpdate.Blank

/-- The Unicode property White_Space. -/
def isBlank (c : Char) : Bool :=
  let n := c.toNat
  (9 ≤ n && n ≤ 13) || n == 0x20 || n == 0x85 || n == 0xa0 || n == 0x1680 ||
    (0x2000 ≤ n && n ≤ 0x200a) || n == 0x2028 || n == 0x2029 || n == 0x202f || n == 0x205f ||
    n == 0x3000

/-- Drops the blanks in front. -/
def trimStartList (cs : List Char) : List Char := cs.dropWhile isBlank

/-- Drops the blanks at both ends. -/
def trimList (cs : List Char) : List Char :=
  (trimStartList (trimStartList cs).reverse).reverse

/-- A text without the blanks at its ends. -/
def trim (text : String) : String := String.ofList (trimList text.toList)

/-- Cuts a text at blanks; `current` is the word under way, reversed. -/
def wordsFrom : List Char → List Char → List (List Char)
  | [], [] => []
  | [], current => [current.reverse]
  | c :: rest, current =>
    if isBlank c then
      match current with
      | [] => wordsFrom rest []
      | _ => current.reverse :: wordsFrom rest []
    else wordsFrom rest (c :: current)

/-- The words of a text. -/
def words (text : String) : List String := (wordsFrom text.toList []).map String.ofList

/-- Cuts a text at every separator; there is one more field than there are separators. -/
def fieldsList (separator : Char) : List Char → List (List Char)
  | [] => [[]]
  | c :: rest =>
    if c = separator then [] :: fieldsList separator rest
    else
      match fieldsList separator rest with
      | [] => [[c]]
      | first :: others => (c :: first) :: others

/-- The fields of a text. -/
def fields (separator : Char) (text : String) : List String :=
  (fieldsList separator text.toList).map String.ofList

/-- What stands before and after the first separator. -/
def splitFirst? (separator : Char) (text : String) : Option (String × String) :=
  match text.toList.span (· != separator) with
  | (_, []) => none
  | (before, _ :: after) => some (String.ofList before, String.ofList after)

/-- Drops one carriage return at the end. -/
def dropReturn (line : List Char) : List Char :=
  if line.getLast? = some '\r' then line.dropLast else line

/-- The lines of a text: a final line end starts no further line, and a carriage return before a
line end belongs to it. -/
def lines (text : String) : List String :=
  let parts := fieldsList '\n' text.toList
  let ended := (parts.dropLast.map dropReturn).map String.ofList
  match parts.getLast? with
  | none | some [] => ended
  | some last => ended ++ [String.ofList last]

end BlockUpdate.Blank
