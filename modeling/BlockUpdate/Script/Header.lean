import BlockUpdate.Text.Blank
import BlockUpdate.Text.Decimal
import BlockUpdate.Text.Quoted

/-!
# The header of a script

A script opens with four numbers: a version, the number of blocks that the update writes, and the
limits of the stash, where zero stands for none. They are on four lines, or on one line with
commas between them.

- `ScriptHeader.parse`: the header of a list of lines, and the number of lines that it takes up.
-/

namespace BlockUpdate

/-- What is wrong with a header. -/
inductive ScriptFault
  | noLines
  | fewLines (found : Nat)
  | wrongCount (found : Nat)
  | badField (name value : String) (fault : Decimal.Fault)
  | unsupportedVersion (version : Nat)
  deriving Repr, DecidableEq

def ScriptFault.message : ScriptFault → String
  | .noLines => "empty transfer list"
  | .fewLines found => "header needs 4 lines, found " ++ toString found
  | .wrongCount found => "header needs 4 fields, found " ++ toString found
  | .badField name value fault => name ++ " " ++ Quoted.encode value ++ ": " ++ fault.message
  | .unsupportedVersion version => "unsupported version " ++ toString version

/-- The numbers that open a script. -/
structure ScriptHeader where
  version : Nat
  totalBlocks : Nat
  /-- The largest number of stash entries, or zero. -/
  maxStashEntries : Nat
  /-- The largest number of stashed blocks, or zero. -/
  maxStashBlocks : Nat
  deriving Repr, DecidableEq

namespace ScriptHeader

/-- A number of sixty-four bits in a field. -/
def number (name value : String) : Except ScriptFault Nat :=
  match Decimal.parse64 value with
  | .ok n => .ok n
  | .error fault => .error (.badField name value fault)

/-- The version, a positive number of thirty-two bits. -/
def versionOf (value : String) : Except ScriptFault Nat := do
  let version ← number "version" value
  if version = 0 ∨ Decimal.limit32 ≤ version then
    throw (.unsupportedVersion version)
  return version

/-- The header that fields denote. -/
def ofFields : List String → Except ScriptFault ScriptHeader
  | [version, blocks, entries, stashBlocks] => do
    let version ← versionOf version
    let totalBlocks ← number "block count" blocks
    let maxStashEntries ← number "max stash entries" entries
    let maxStashBlocks ← number "max stash blocks" stashBlocks
    return { version, totalBlocks, maxStashEntries, maxStashBlocks }
  | fields => .error (.wrongCount fields.length)

/-- Reads the header; gives the number of lines that it takes up too. -/
def parse (lines : List String) : Except ScriptFault (ScriptHeader × Nat) :=
  match lines with
  | [] => .error .noLines
  | first :: _ =>
    let first := Blank.trim first
    if first.contains ',' then do
      return (← ofFields ((Blank.fields ',' first).map Blank.trim), 1)
    else if lines.length < 4 then .error (.fewLines lines.length)
    else do
      return (← ofFields ((lines.take 4).map Blank.trim), 4)

end ScriptHeader

end BlockUpdate
