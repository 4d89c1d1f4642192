import BlockUpdate.Text.Float.Format
import BlockUpdate.Text.Timestamp
import BlockUpdate.Text.Toml.Value

/-!
# Numbers, truth values and times in TOML

- `TomlScalar.read?`: a value that is not quoted and has no brackets, and what follows it.
-/

namespace BlockUpdate.TomlScalar

/-! ## Digits -/

/-- Digits, perhaps with single underscores between them, which are left out, and what follows. -/
def digits? (isDigit : Char → Bool) : List Char → Option (List Char × List Char)
  | [] => none
  | c :: rest =>
    if isDigit c then
      match rest with
      | '_' :: rest => (digits? isDigit rest).map fun (found, rest) => (c :: found, rest)
      | d :: rest =>
        if isDigit d then
          (digits? isDigit (d :: rest)).map fun (found, rest) => (c :: found, rest)
        else some ([c], d :: rest)
      | [] => some ([c], [])
    else none

/-- The value of a digit. -/
def digitValue (c : Char) : Nat :=
  if c.isDigit then c.toNat - 48 else c.toLower.toNat - 87

/-- The value of digits. -/
def valueOf (base : Nat) (digits : List Char) : Nat :=
  digits.foldl (fun n c => base * n + digitValue c) 0

/-- A sign, if there is one. -/
def sign : List Char → Bool × List Char
  | '-' :: rest => (true, rest)
  | '+' :: rest => (false, rest)
  | rest => (false, rest)

/-- What follows a word. -/
def word? (word : String) (input : List Char) : Option (List Char) :=
  if word.toList.isPrefixOf input then some (input.drop word.length) else none

/-! ## Integers -/

/-- An integer of sixty-four bits with a sign. -/
def integer? (n : Int) : Option TomlValue :=
  if -(2 ^ 63) ≤ n ∧ n < 2 ^ 63 then some (.integer n) else none

/-- An integer with another base, behind its mark. -/
def based? (base : Nat) (isDigit : Char → Bool) (input : List Char) :
    Option (TomlValue × List Char) := do
  let (found, rest) ← digits? isDigit input
  return (← integer? (valueOf base found), rest)

def isHexDigit (c : Char) : Bool :=
  c.isDigit || ('a' ≤ c && c ≤ 'f') || ('A' ≤ c && c ≤ 'F')

def isOctalDigit (c : Char) : Bool := '0' ≤ c && c ≤ '7'

def isBinaryDigit (c : Char) : Bool := c == '0' || c == '1'

/-! ## Other numbers -/

/-- The digits before the point: a zero stands alone. -/
def whole? : List Char → Option (List Char × List Char)
  | '0' :: rest => some (['0'], rest)
  | input => digits? Char.isDigit input

/-- The digits behind a point, if there is a point. -/
def fraction? : List Char → Option (List Char × List Char)
  | '.' :: rest => digits? Char.isDigit rest
  | input => some ([], input)

/-- An exponent, if there is one. -/
def exponent? : List Char → Option (Int × List Char)
  | [] => some (0, [])
  | e :: rest =>
    if e = 'e' ∨ e = 'E' then do
      let (negative, rest) := sign rest
      let (found, rest) ← digits? Char.isDigit rest
      let n : Int := valueOf 10 found
      return (if negative then -n else n, rest)
    else some (0, e :: rest)

/-- A decimal number. One that rounds to infinity is refused, unless it is negative. -/
def float? (negative : Bool) (digits : Nat) (exponent : Int) : Option TomlValue :=
  let magnitude := FloatFormat.double.ofDecimal digits exponent
  if !negative ∧ magnitude = FloatFormat.double.infinity then none
  else some (.float negative magnitude)

/-- A number in decimal digits, and what follows it. It is an integer if it has neither a point nor
an exponent. -/
def decimal? (negative : Bool) (input : List Char) : Option (TomlValue × List Char) := do
  let (whole, rest) ← whole? input
  if rest.head? = some '.' ∨ rest.head? = some 'e' ∨ rest.head? = some 'E' then
    let (fraction, rest) ← fraction? rest
    let (exponent, rest) ← exponent? rest
    let value ← float? negative (valueOf 10 (whole ++ fraction)) (exponent - fraction.length)
    return (value, rest)
  else
    let n : Int := valueOf 10 whole
    return (← integer? (if negative then -n else n), rest)

/-- A number, and what follows it. -/
def number? (input : List Char) : Option (TomlValue × List Char) :=
  match input with
  | '0' :: 'x' :: rest => based? 16 isHexDigit rest
  | '0' :: 'o' :: rest => based? 8 isOctalDigit rest
  | '0' :: 'b' :: rest => based? 2 isBinaryDigit rest
  | _ =>
    let (negative, rest) := sign input
    if let some rest := word? "inf" rest then
      some (.float negative FloatFormat.double.infinity, rest)
    else if let some rest := word? "nan" rest then
      some (.float negative FloatFormat.double.undefined, rest)
    else decimal? negative rest

/-! ## Times -/

/-- A number of just so many digits between two limits. -/
def field? (width low high : Nat) (input : List Char) : Option (Nat × List Char) :=
  let found := (input.take width).takeWhile Char.isDigit
  let n := valueOf 10 found
  if found.length = width ∧ low ≤ n ∧ n ≤ high then some (n, input.drop width) else none

/-- What follows a date. -/
def afterDate? (input : List Char) : Option (List Char) := do
  let (year, rest) ← field? 4 0 9999 input
  let (month, rest) ← field? 2 1 12 (← word? "-" rest)
  let (_, rest) ← field? 2 1 (Timestamp.Date.monthLength year month) (← word? "-" rest)
  return rest

/-- What follows a time of day. -/
def afterTime? (input : List Char) : Option (List Char) := do
  let (_, rest) ← field? 2 0 23 input
  let (_, rest) ← field? 2 0 59 (← word? ":" rest)
  let (_, rest) ← field? 2 0 60 (← word? ":" rest)
  match rest with
  | '.' :: c :: fraction =>
    return if c.isDigit then fraction.dropWhile Char.isDigit else rest
  | rest => return rest

/-- What follows an offset from UTC. -/
def afterOffset? (input : List Char) : Option (List Char) :=
  match input with
  | 'Z' :: rest | 'z' :: rest => some rest
  | '+' :: rest | '-' :: rest => do
    let (_, rest) ← field? 2 0 23 rest
    let (_, rest) ← field? 2 0 59 (← word? ":" rest)
    return rest
  | _ => none

/-- What follows a time of day behind a date, and an offset, as far as there are any. -/
def afterDateTime (input : List Char) : List Char :=
  match input with
  | [] => []
  | c :: rest =>
    if c = 'T' ∨ c = 't' ∨ c = ' ' then
      match afterTime? rest with
      | some rest => (afterOffset? rest).getD rest
      | none => input
    else input

/-- What follows a date, a time of day, or both. -/
def afterMoment? (input : List Char) : Option (List Char) :=
  match afterDate? input with
  | some rest => some (afterDateTime rest)
  | none => afterTime? input

/-! ## All of them -/

/-- A value without quotes or brackets, and what follows it. -/
def read? (input : List Char) : Option (TomlValue × List Char) :=
  if let some rest := word? "true" input then some (.bool true, rest)
  else if let some rest := word? "false" input then some (.bool false, rest)
  else if let some rest := afterMoment? input then some (.time, rest)
  else number? input

end BlockUpdate.TomlScalar
