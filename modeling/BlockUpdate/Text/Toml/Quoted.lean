import BlockUpdate.Text.Quoted

/-!
# Quoted text in TOML

There are four ways to quote a text: in double quotes with escapes or in single quotes without, on
one line in one quote or over several lines in three.

- `TomlText.read?`: a quoted text, and what follows it.
- `TomlText.readLine?`: one that is quoted on one line.
- `TomlText.encode`: the plainest way to quote a text.
-/

namespace BlockUpdate.TomlText

/-- A control character that cannot stand in a quoted text or a comment: all but the tab. -/
def isControl (c : Char) : Bool := (c.toNat < 0x20 && c != '\t') || c.toNat == 0x7f

/-- A blank within a line. -/
def isBlank (c : Char) : Bool := c == ' ' || c == '\t'

/-! ## Finding the end -/

/-- What stands before the closing double quote, and what follows it. -/
def splitBasic : List Char → Option (List Char × List Char)
  | [] => none
  | '"' :: rest => some ([], rest)
  | '\\' :: c :: rest => (splitBasic rest).map fun (body, rest) => ('\\' :: c :: body, rest)
  | c :: rest =>
    if isControl c then none else (splitBasic rest).map fun (body, rest) => (c :: body, rest)

/-- What stands before the closing single quote, and what follows it. -/
def splitLiteral : List Char → Option (List Char × List Char)
  | [] => none
  | '\'' :: rest => some ([], rest)
  | c :: rest =>
    if isControl c then none else (splitLiteral rest).map fun (body, rest) => (c :: body, rest)

/-- The quotes of a run of at least three that belong to the text before it, two at most, and what
follows the three behind them. -/
def closing? (quote : Char) (input : List Char) : Option (List Char × List Char) :=
  let run := (input.takeWhile (· == quote)).length
  if 3 ≤ run then
    let kept := min (run - 3) 2
    some (List.replicate kept quote, input.drop (kept + 3))
  else none

/-- What stands before three closing quotes, and what follows them. Only within double quotes
does a backslash take a quote its meaning. Every line end becomes a single character. -/
def splitLong (quote : Char) : List Char → Option (List Char × List Char)
  | [] => none
  | c :: rest =>
    match closing? quote (c :: rest) with
    | some found => some found
    | none =>
      match c, rest with
      | '\r', '\n' :: rest => (splitLong quote rest).map fun (body, rest) => ('\n' :: body, rest)
      | '\\', d :: rest =>
        if quote = '"' ∧ (d = '"' ∨ d = '\\') then
          (splitLong quote rest).map fun (body, rest) => ('\\' :: d :: body, rest)
        else (splitLong quote (d :: rest)).map fun (body, rest) => ('\\' :: body, rest)
      | c, rest =>
        if isControl c ∧ c ≠ '\n' then none
        else (splitLong quote rest).map fun (body, rest) => (c :: body, rest)

/-- Drops a line end in front. -/
def dropLineEnd : List Char → List Char
  | '\n' :: rest => rest
  | '\r' :: '\n' :: rest => rest
  | rest => rest

/-! ## Escapes -/

/-- The value of a hexadecimal digit. -/
def hexValue? (c : Char) : Option Nat :=
  if c.isDigit then some (c.toNat - 48)
  else if 'a' ≤ c ∧ c ≤ 'f' then some (c.toNat - 87)
  else if 'A' ≤ c ∧ c ≤ 'F' then some (c.toNat - 55)
  else none

/-- The character whose number is written with just so many hexadecimal digits. -/
def character? (width : Nat) (input : List Char) : Option Char := do
  let digits ← (input.take width).mapM hexValue?
  let n := digits.foldl (16 * · + ·) 0
  if digits.length = width ∧ n.isValidChar then some (Char.ofNat n) else none

/-- What an escape stands for by what follows its backslash, and how many characters it takes. In
a text over several lines a backslash at the end of a line takes all blanks and line ends that
follow. -/
def escaped? (long : Bool) : List Char → Option (List Char × Nat)
  | 'b' :: _ => some (['\x08'], 1)
  | 't' :: _ => some (['\t'], 1)
  | 'n' :: _ => some (['\n'], 1)
  | 'f' :: _ => some (['\x0c'], 1)
  | 'r' :: _ => some (['\r'], 1)
  | '"' :: _ => some (['"'], 1)
  | '\\' :: _ => some (['\\'], 1)
  | 'u' :: rest => (character? 4 rest).map fun c => ([c], 5)
  | 'U' :: rest => (character? 8 rest).map fun c => ([c], 9)
  | rest =>
    if long ∧ (rest.dropWhile isBlank).head? = some '\n' then
      some ([], (rest.takeWhile fun c => isBlank c || c == '\n').length)
    else none

/-- The text that a body with escapes stands for. -/
def unescape (long : Bool) : List Char → Option (List Char)
  | [] => some []
  | c :: rest =>
    if c = '\\' then
      match escaped? long rest with
      | some (made, taken) => (unescape long (rest.drop taken)).map (made ++ ·)
      | none => none
    else (unescape long rest).map (c :: ·)
termination_by body => body.length
decreasing_by
  · simp only [List.length_drop, List.length_cons]
    omega
  · simp only [List.length_cons]
    omega

/-! ## Reading -/

/-- A text that is quoted on one line, and what follows it. -/
def readLine? : List Char → Option (String × List Char)
  | '"' :: rest => do
    let (body, rest) ← splitBasic rest
    return (String.ofList (← unescape false body), rest)
  | '\'' :: rest => (splitLiteral rest).map fun (body, rest) => (String.ofList body, rest)
  | _ => none

/-- A quoted text, and what follows it. A line end right behind three opening quotes does not
count. -/
def read? : List Char → Option (String × List Char)
  | '"' :: '"' :: '"' :: rest => do
    let (body, rest) ← splitLong '"' (dropLineEnd rest)
    return (String.ofList (← unescape true body), rest)
  | '\'' :: '\'' :: '\'' :: rest => do
    let (body, rest) ← splitLong '\'' (dropLineEnd rest)
    return (String.ofList body, rest)
  | input => readLine? input

/-! ## Writing -/

/-- The length of the longest run of a character; `run` is the length of the one under way. -/
def longestRun (wanted : Char) : Nat → List Char → Nat
  | run, [] => run
  | run, c :: rest =>
    if c = wanted then longestRun wanted (run + 1) rest else max run (longestRun wanted 0 rest)

/-- How a character is written within double quotes. -/
def escape (c : Char) : List Char :=
  match c with
  | '\x08' => ['\\', 'b']
  | '\t' => ['\\', 't']
  | '\n' => ['\\', 'n']
  | '\x0c' => ['\\', 'f']
  | '\r' => ['\\', 'r']
  | '"' => ['\\', '"']
  | '\\' => ['\\', '\\']
  | _ =>
    if isControl c then
      let digits := (Nat.toDigits 16 c.toNat).map Char.toUpper
      '\\' :: 'u' :: List.replicate (4 - digits.length) '0' ++ digits
    else [c]

/-- A body in one double quote. -/
def escapeLine (body : List Char) : List Char := body.flatMap escape

/-- A body in three double quotes: line ends stay, and so do quotes of which no more than two
stand together; `run` is the number of those before the body. -/
def escapeLong : Nat → List Char → List Char
  | _, [] => []
  | run, c :: rest =>
    if c = '\n' then c :: escapeLong 0 rest
    else if c = '"' ∧ run < 2 then c :: escapeLong (run + 1) rest
    else escape c ++ escapeLong 0 rest

/-- A body between quotes. If it has line ends, it starts on a line of its own. -/
def between (quotes : String) (body : List Char) : List Char :=
  let opening := if quotes.length = 3 ∧ body.contains '\n' then ['\n'] else []
  quotes.toList ++ opening ++ body ++ quotes.toList

/-- The plainest way to quote a text: the first of one double quote, one single quote, three double
and three single quotes between which nothing needs an escape, and double quotes with escapes if
there is none. -/
def encode (text : String) : String :=
  let body := text.toList
  let several := body.contains '\n'
  let plain := body.all fun c => !isControl c || c == '\n'
  let verbatim := plain && !body.contains '\\'
  let double := longestRun '"' 0 body
  let single := longestRun '\'' 0 body
  String.ofList <|
    if verbatim && double = 0 && !several then between "\"" (escapeLine body)
    else if plain && single = 0 && !several then between "'" body
    else if verbatim && double ≤ 2 then between "\"\"\"" (escapeLong 0 body)
    else if plain && single ≤ 2 then between "'''" body
    else if several then between "\"\"\"" (escapeLong 0 body)
    else between "\"" (escapeLine body)

end BlockUpdate.TomlText
