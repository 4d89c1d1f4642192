import BlockUpdate.Bytes

/-!
# Text in UTF-8

- `Utf8.decode`: the text of a byte string, or the first place where it is malformed.
- `Utf8.Fault.message`: how that place is described.
-/

namespace BlockUpdate.Utf8

/-- Where a byte string stops being UTF-8. -/
inductive Fault
  /-- `length` bytes at `index` begin no character. -/
  | invalid (length index : Nat)
  /-- The string ends inside the character that begins at `index`. -/
  | incomplete (index : Nat)
  deriving Repr, DecidableEq

def Fault.message : Fault → String
  | .invalid length index =>
    "invalid utf-8 sequence of " ++ toString length ++ " bytes from index " ++ toString index
  | .incomplete index => "incomplete utf-8 byte sequence from index " ++ toString index

/-- The number of bytes of a character, by its first byte. -/
def width (first : Nat) : Nat :=
  if first < 0x80 then 1
  else if 0xc2 ≤ first ∧ first ≤ 0xdf then 2
  else if 0xe0 ≤ first ∧ first ≤ 0xef then 3
  else if 0xf0 ≤ first ∧ first ≤ 0xf4 then 4
  else 0

/-- Whether `second` may follow `first`: this excludes overlong forms, surrogates and codes past
the last character. -/
def secondFits (first second : Nat) : Bool :=
  if first = 0xe0 then 0xa0 ≤ second && second ≤ 0xbf
  else if first = 0xed then 0x80 ≤ second && second ≤ 0x9f
  else if first = 0xf0 then 0x90 ≤ second && second ≤ 0xbf
  else if first = 0xf4 then 0x80 ≤ second && second ≤ 0x8f
  else 0x80 ≤ second && second ≤ 0xbf

def isContinuation (b : UInt8) : Bool := 0x80 ≤ b.toNat && b.toNat ≤ 0xbf

/-- Checks the continuation bytes from the `k`-th byte of a character of width `w` on. -/
def tailFault? (index w k : Nat) : List UInt8 → Option Fault
  | [] => if k < w then some (.incomplete index) else none
  | b :: rest =>
    if w ≤ k then none
    else if isContinuation b then tailFault? index w (k + 1) rest
    else some (.invalid k index)

/-- Checks the character that begins a list. -/
def headFault? (index : Nat) : List UInt8 → Option Fault
  | [] => none
  | first :: rest =>
    let w := width first.toNat
    if w = 0 then some (.invalid 1 index)
    else if w = 1 then none
    else
      match rest with
      | [] => some (.incomplete index)
      | second :: others =>
        if secondFits first.toNat second.toNat then tailFault? index w 2 others
        else some (.invalid 1 index)

/-- The first malformed place, looking at up to `fuel` characters. -/
def faultFrom : Nat → Nat → List UInt8 → Option Fault
  | 0, _, _ => none
  | _ + 1, _, [] => none
  | fuel + 1, index, first :: rest =>
    match headFault? index (first :: rest) with
    | some fault => some fault
    | none =>
      let w := width first.toNat
      faultFrom fuel (index + w) ((first :: rest).drop w)

/-- The first malformed place of a byte string. -/
def fault? (b : Bytes) : Option Fault := faultFrom (b.size + 1) 0 b.data.toList

/-- The text of a byte string. -/
def decode (b : Bytes) : Except Fault String :=
  match String.fromUTF8? b with
  | some text => .ok text
  | none => .error ((fault? b).getD (.incomplete b.size))

end BlockUpdate.Utf8
