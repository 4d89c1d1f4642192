import BlockUpdate.Instances

/-!
# Decimal numbers of limited size

- `Decimal.parse limit text`: an unsigned number below `limit`, with an optional plus sign.
- `Decimal.Fault`: why a text is not such a number.
-/

namespace BlockUpdate.Decimal

/-- Why a text is not an unsigned number of the wanted size. -/
inductive Fault
  | empty
  | invalidDigit
  | tooLarge
  deriving Repr, DecidableEq

def Fault.message : Fault → String
  | .empty => "cannot parse integer from empty string"
  | .invalidDigit => "invalid digit found in string"
  | .tooLarge => "number too large to fit in target type"

/-- Reads digits from left to right. A wrong character is reported before a number that grows too
large at the same place, and after one that did so earlier. -/
def parseDigits (limit : Nat) : List Char → Nat → Except Fault Nat
  | [], n => .ok n
  | c :: rest, n =>
    if c.isDigit then
      let next := 10 * n + (c.toNat - 48)
      if next < limit then parseDigits limit rest next else .error .tooLarge
    else .error .invalidDigit

/-- Reads a number of at most one sign and at least one digit. -/
def parseList (limit : Nat) : List Char → Except Fault Nat
  | [] => .error .empty
  | ['+'] => .error .invalidDigit
  | '+' :: digits => parseDigits limit digits 0
  | digits => parseDigits limit digits 0

/-- Reads a whole text as a number below `limit`. -/
def parse (limit : Nat) (text : String) : Except Fault Nat := parseList limit text.toList

/-- One more than the largest number of sixty-four bits. -/
def limit64 : Nat := 2 ^ 64

/-- One more than the largest number of thirty-two bits. -/
def limit32 : Nat := 2 ^ 32

/-- Reads a number of sixty-four bits. -/
def parse64 (text : String) : Except Fault Nat := parse limit64 text

end BlockUpdate.Decimal
