import BlockUpdate.Text.Utf8

/-!
# Text in JSON strings

What stands between the quotes of a JSON string: UTF-8, in which quotes, backslashes and control
characters are escaped.

- `JsonText.encode`: the escaped form of a text.
- `JsonText.decode`: the text of an escaped form, unless it holds an unpaired surrogate or is not
  UTF-8.
-/

namespace BlockUpdate.JsonText

/-- The byte of an ASCII character. -/
def ascii (c : Char) : UInt8 := UInt8.ofNat c.toNat

/-- The lowercase hexadecimal digit of a number below sixteen. -/
def hexDigit (n : Nat) : UInt8 := UInt8.ofNat (if n < 10 then 48 + n else 87 + n)

/-- The escaped form of one character. -/
def encodeChar (c : Char) : List UInt8 :=
  match c with
  | '"' => [ascii '\\', ascii '"']
  | '\\' => [ascii '\\', ascii '\\']
  | '\n' => [ascii '\\', ascii 'n']
  | '\r' => [ascii '\\', ascii 'r']
  | '\t' => [ascii '\\', ascii 't']
  | '\x08' => [ascii '\\', ascii 'b']
  | '\x0c' => [ascii '\\', ascii 'f']
  | _ =>
    if c.toNat < 0x20 then
      [ascii '\\', ascii 'u', ascii '0', ascii '0', hexDigit (c.toNat / 16),
        hexDigit (c.toNat % 16)]
    else String.utf8EncodeChar c

/-- The escaped form of a text. -/
def encode (text : String) : List UInt8 := text.toList.flatMap encodeChar

/-- The value of a hexadecimal digit of either case. -/
def hexValue? (b : UInt8) : Option Nat :=
  let n := b.toNat
  if 48 ≤ n ∧ n ≤ 57 then some (n - 48)
  else if 97 ≤ n ∧ n ≤ 102 then some (n - 87)
  else if 65 ≤ n ∧ n ≤ 70 then some (n - 55)
  else none

/-- The number of four hexadecimal digits. -/
def hex4? (a b c d : UInt8) : Option Nat := do
  return 4096 * (← hexValue? a) + 256 * (← hexValue? b) + 16 * (← hexValue? c) + (← hexValue? d)

/-- The character that a backslash and a letter stand for. -/
def shortEscape? (b : UInt8) : Option UInt8 :=
  if b = ascii '"' ∨ b = ascii '\\' ∨ b = ascii '/' then some b
  else if b = ascii 'b' then some 8
  else if b = ascii 'f' then some 12
  else if b = ascii 'n' then some 10
  else if b = ascii 'r' then some 13
  else if b = ascii 't' then some 9
  else none

/-- The bytes that an escaped form denotes. Codes above `0xffff` are written as two escapes. -/
def unescape : List UInt8 → Option (List UInt8)
  | [] => some []
  | 0x5c :: 0x75 :: a :: b :: c :: d :: rest => do
    let n ← hex4? a b c d
    if 0xdc00 ≤ n ∧ n ≤ 0xdfff then
      none
    else if 0xd800 ≤ n ∧ n ≤ 0xdbff then
      match rest with
      | 0x5c :: 0x75 :: a :: b :: c :: d :: rest => do
        let low ← hex4? a b c d
        if 0xdc00 ≤ low ∧ low ≤ 0xdfff then
          let code := 0x10000 + 1024 * (n - 0xd800) + (low - 0xdc00)
          return String.utf8EncodeChar (Char.ofNat code) ++ (← unescape rest)
        else
          none
      | _ => none
    else
      return String.utf8EncodeChar (Char.ofNat n) ++ (← unescape rest)
  | 0x5c :: b :: rest => do
    let c ← shortEscape? b
    return c :: (← unescape rest)
  | b :: rest => do
    if b = 0x5c then
      none
    else
      return b :: (← unescape rest)

/-- The text that an escaped form denotes. -/
def decode (escaped : List UInt8) : Option String := do
  (Utf8.decode (Bytes.ofList (← unescape escaped))).toOption

end BlockUpdate.JsonText
