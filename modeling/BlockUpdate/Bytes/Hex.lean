import BlockUpdate.Bytes
import BlockUpdate.Text.Quoted

/-!
# Hexadecimal text

- `Hex.encode`: two lowercase digits for each byte.
- `Hex.decode`: reads digits of either case and says which character is wrong, and where.
- `Hex.sameDigest`: equality of hex texts up to the case of ASCII letters.

**Main statement**: `digitValue?_digit`, a written digit reads back.
-/

namespace BlockUpdate.Hex

/-- The lowercase digit of a number below sixteen. -/
def digit (n : Nat) : Char :=
  if n < 10 then Char.ofNat (48 + n) else Char.ofNat (87 + n)

/-- The two digits of one byte. -/
def byteDigits (b : UInt8) : List Char := [digit (b.toNat / 16), digit (b.toNat % 16)]

/-- The digits of a byte string. -/
def encode (b : Bytes) : String :=
  String.ofList (b.data.toList.flatMap byteDigits)

/-- The value of a digit of either case. -/
def digitValue? (c : Char) : Option Nat :=
  let n := c.toNat
  if 48 ≤ n ∧ n ≤ 57 then some (n - 48)
  else if 97 ≤ n ∧ n ≤ 102 then some (n - 87)
  else if 65 ≤ n ∧ n ≤ 70 then some (n - 55)
  else none

theorem digitValue?_digit : ∀ {n : Nat}, n < 16 → digitValue? (digit n) = some n := by
  decide

/-- Why a text is not an even string of hexadecimal digits. -/
inductive Fault
  /-- An odd number of bytes. -/
  | oddLength
  /-- The byte at `position`, shown as the character of that code, is no digit. -/
  | badDigit (byte : Nat) (position : Nat)
  deriving Repr, DecidableEq

def Fault.message : Fault → String
  | .oddLength => "Odd number of digits"
  | .badDigit byte position =>
    "Invalid character " ++ Quoted.encodeChar (Char.ofNat byte) ++ " at position " ++
      toString position

/-- Reads pairs of digits from the bytes of a text, the first of which has index `position`. -/
def decodePairs : List UInt8 → Nat → Except Fault (List UInt8)
  | high :: low :: rest, position => do
    let some h := digitValue? (Char.ofNat high.toNat)
      | throw (.badDigit high.toNat position)
    let some l := digitValue? (Char.ofNat low.toNat)
      | throw (.badDigit low.toNat (position + 1))
    return UInt8.ofNat (16 * h + l) :: (← decodePairs rest (position + 2))
  | _, _ => return []

/-- Reads a whole text; an odd length is reported before any wrong digit. -/
def decode (text : String) : Except Fault Bytes := do
  let bytes := text.toUTF8
  if bytes.size % 2 ≠ 0 then
    throw .oddLength
  return Bytes.ofList (← decodePairs bytes.data.toList 0)

/-- Lowers the ASCII capitals of a text. -/
def lowerAscii (text : String) : String := text.map Char.toLower

/-- Two hex texts denote the same digest when they agree up to the case of ASCII letters. -/
def sameDigest (a b : String) : Bool := lowerAscii a == lowerAscii b

end BlockUpdate.Hex
