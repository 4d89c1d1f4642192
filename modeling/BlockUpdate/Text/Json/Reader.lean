import BlockUpdate.Text.Json.Value

/-!
# Reading JSON

- `JsonValue.parse`: the value that a byte string holds, with nothing but blanks around it.

The reader checks the form of numbers and strings but not that strings are UTF-8, which is left to
those who want their text.
-/

namespace BlockUpdate.JsonValue

/-- Whether a byte is a blank between tokens. -/
def isBlank (b : UInt8) : Bool := b == 0x20 || b == 0x0a || b == 0x09 || b == 0x0d

/-- Drops the blanks in front. -/
def skipBlanks (input : List UInt8) : List UInt8 := input.dropWhile isBlank

/-- What follows a word. -/
def word? (word : String) (input : List UInt8) : Option (List UInt8) :=
  let bytes := asciiBytes word
  if bytes.isPrefixOf input then some (input.drop bytes.length) else none

/-! ## Strings -/

/-- What stands before the closing quote, and what follows it. -/
def stringFrom : List UInt8 → List UInt8 → Option (List UInt8 × List UInt8)
  | [], _ => none
  | 0x22 :: rest, taken => some (taken.reverse, rest)
  | 0x5c :: 0x75 :: a :: b :: c :: d :: rest, taken =>
    if (JsonText.hex4? a b c d).isSome then
      stringFrom rest (d :: c :: b :: a :: 0x75 :: 0x5c :: taken)
    else none
  | 0x5c :: b :: rest, taken =>
    if (JsonText.shortEscape? b).isSome then stringFrom rest (b :: 0x5c :: taken) else none
  | b :: rest, taken => if b < 0x20 ∨ b = 0x5c then none else stringFrom rest (b :: taken)

/-! ## Numbers -/

def isDigit (b : UInt8) : Bool := 48 ≤ b.toNat && b.toNat ≤ 57

/-- At least one digit, and what follows. -/
def digits? (input : List UInt8) : Option (List UInt8 × List UInt8) :=
  match input.span isDigit with
  | ([], _) => none
  | found => some found

/-- The digits before the point: a zero stands alone. -/
def integer? (input : List UInt8) : Option (List UInt8 × List UInt8) := do
  let (found, rest) ← digits? input
  if found.length ≠ 1 ∧ found.head? = some 0x30 then
    none
  return (found, rest)

/-- A point and digits, if there is a point. -/
def fraction? : List UInt8 → Option (List UInt8 × List UInt8)
  | 0x2e :: rest => do
    let (found, rest) ← digits? rest
    return (0x2e :: found, rest)
  | input => some ([], input)

/-- An exponent, if there is one. -/
def exponent? : List UInt8 → Option (List UInt8 × List UInt8)
  | [] => some ([], [])
  | e :: rest =>
    if e = 0x65 ∨ e = 0x45 then do
      let (sign, rest) : List UInt8 × List UInt8 := match rest with
        | 0x2b :: rest => ([0x2b], rest)
        | 0x2d :: rest => ([0x2d], rest)
        | rest => ([], rest)
      let (found, rest) ← digits? rest
      return (e :: sign ++ found, rest)
    else some ([], e :: rest)

/-- A number and what follows it. -/
def number? (input : List UInt8) : Option (JsonValue × List UInt8) := do
  let (sign, rest) : List UInt8 × List UInt8 := match input with
    | 0x2d :: rest => ([0x2d], rest)
    | rest => ([], rest)
  let (integer, rest) ← integer? rest
  let (fraction, rest) ← fraction? rest
  let (exponent, rest) ← exponent? rest
  return (.number (sign ++ integer ++ fraction ++ exponent), rest)

/-! ## Values -/

mutual

/-- A value and what follows it; values lie within each other `fuel` deep at most. -/
def value? : Nat → List UInt8 → Option (JsonValue × List UInt8)
  | 0, _ => none
  | fuel + 1, input =>
    match skipBlanks input with
    | [] => none
    | b :: rest =>
      if b = 0x22 then do
        let (escaped, rest) ← stringFrom rest []
        return (.string escaped, rest)
      else if b = 0x5b then
        match skipBlanks rest with
        | 0x5d :: rest => some (.array [], rest)
        | rest => do
          let (items, rest) ← items? fuel rest
          return (.array items, rest)
      else if b = 0x7b then
        match skipBlanks rest with
        | 0x7d :: rest => some (.object [], rest)
        | rest => do
          let (fields, rest) ← fields? fuel rest
          return (.object fields, rest)
      else if b = 0x6e then do return (.null, ← word? "null" (b :: rest))
      else if b = 0x74 then do return (.bool true, ← word? "true" (b :: rest))
      else if b = 0x66 then do return (.bool false, ← word? "false" (b :: rest))
      else number? (b :: rest)

/-- The items up to the end of an array, at least one. -/
def items? : Nat → List UInt8 → Option (List JsonValue × List UInt8)
  | 0, _ => none
  | fuel + 1, input => do
    let (item, rest) ← value? fuel input
    match skipBlanks rest with
    | 0x5d :: rest => return ([item], rest)
    | 0x2c :: rest =>
      let (items, rest) ← items? fuel rest
      return (item :: items, rest)
    | _ => none

/-- The fields up to the end of an object, at least one. -/
def fields? : Nat → List UInt8 → Option (List (List UInt8 × JsonValue) × List UInt8)
  | 0, _ => none
  | fuel + 1, input =>
    match skipBlanks input with
    | 0x22 :: rest => do
      let (key, rest) ← stringFrom rest []
      match skipBlanks rest with
      | 0x3a :: rest =>
        let (value, rest) ← value? fuel rest
        match skipBlanks rest with
        | 0x7d :: rest => return ([(key, value)], rest)
        | 0x2c :: rest =>
          let (fields, rest) ← fields? fuel rest
          return ((key, value) :: fields, rest)
        | _ => none
      | _ => none
    | _ => none

end

/-- The value that a byte string holds. -/
def parse (data : Bytes) : Option JsonValue := do
  let input := data.data.toList
  let (value, rest) ← value? (2 * input.length + 2) input
  if (skipBlanks rest).isEmpty then some value else none

end BlockUpdate.JsonValue
