import BlockUpdate.Patch.Error
import BlockUpdate.Text.Blank
import BlockUpdate.Text.Decimal

/-!
# Sets of block ranges

Partitions are addressed in blocks of 4096 bytes. A descriptor names ranges of blocks in an order
that matters: the bytes of a set are the concatenation of its ranges.

Two forms of descriptors are read, told apart by how many numbers follow the first:

- *range form* `N,s1,e1,s2,e2,…`: `N` numbers follow, the bounds of half-open ranges,
- *count form* `R,c1,s1,c2,s2,…`: `R` ranges follow, each a block count and a start.

- `BlockSet.extend`, `BlockSet.insert`: add the ranges of a descriptor, in place or to a copy.
- `BlockSet.text`: the range form of a set.
- `BlockSet.overlaps`: whether two sets have a block in common.
-/

namespace BlockUpdate

/-- Size of a block in bytes. -/
def blockSize : Nat := 4096

/-! ## Errors -/

/-- What is wrong with a descriptor. -/
inductive DescriptorFault
  | empty
  | badToken (token : String) (fault : Decimal.Fault)
  | zeroRanges
  /-- The range form has a bound without a partner. -/
  | oddBounds
  | emptyRange (start stop : Nat)
  | zeroLength (start : Nat)
  /-- The number of values fits neither form. -/
  | badCount (declared given : Nat)
  /-- A range ends past the largest byte offset. -/
  | offsetOverflow
  /-- The set would hold too many blocks to count. -/
  | totalOverflow
  deriving Repr, DecidableEq

def DescriptorFault.message : DescriptorFault → String
  | .empty => "empty descriptor"
  | .badToken token fault => "bad token " ++ Quoted.encode token ++ ": " ++ fault.message
  | .zeroRanges => "zero ranges"
  | .oddBounds => "odd number of range bounds"
  | .emptyRange start stop => "empty range " ++ toString start ++ ".." ++ toString stop
  | .zeroLength start => "zero-length range at " ++ toString start
  | .badCount declared given =>
    "declared " ++ toString declared ++ " but " ++ toString given ++ " values follow"
  | .offsetOverflow => "range overflows device offsets"
  | .totalOverflow => "block total overflows"

/-- Why blocks cannot be named, read or written. -/
inductive BlockError
  | descriptor (fault : DescriptorFault) (text : String)
  | os (error : OsError)
  /-- An erase was asked for on something that is not a block device. -/
  | notBlockDevice
  | shortBuffer (needed actual : Nat)
  /-- A patch ended before the target was full. -/
  | shortWrite (written expected : Nat)
  | patch (error : PatchError)
  deriving Repr, DecidableEq

namespace BlockError

def message : BlockError → String
  | .descriptor fault text =>
    "invalid block descriptor: " ++ fault.message ++ " in " ++ Quoted.encode text
  | .os error => "I/O error: " ++ error.message
  | .notBlockDevice => "erase requested on a file that is not a block device"
  | .shortBuffer needed actual =>
    "buffer too small: need " ++ toString needed ++ " bytes, have " ++ toString actual
  | .shortWrite written expected =>
    "patch produced " ++ toString written ++ " of " ++ toString expected ++ " target bytes"
  | .patch error => "patch error: " ++ error.message

/-- Whether the device failed with an input/output error. -/
def isIo : BlockError → Bool
  | .os error | .patch (.os error) => error.isIo
  | _ => false

end BlockError

/-! ## Ranges -/

/-- A run of consecutive blocks. -/
structure BlockRange where
  start : Nat
  count : Nat
  deriving Repr, DecidableEq

namespace BlockRange

/-- The first block behind the range. -/
def stop (r : BlockRange) : Nat := r.start + r.count

/-- Whether two ranges have a block in common, provided neither is empty. -/
def overlaps (a b : BlockRange) : Bool := a.start < b.stop && b.start < a.stop

/-- Offset of the first byte. -/
def byteStart (r : BlockRange) : Nat := r.start * blockSize

/-- Size in bytes. -/
def byteLength (r : BlockRange) : Nat := r.count * blockSize

end BlockRange

/-! ## Sets -/

/-- Block ranges in order, and the number of their blocks. -/
structure BlockSet where
  ranges : List BlockRange := []
  total : Nat := 0
  deriving Repr, DecidableEq

namespace BlockSet

/-- Reads a pair of the range form. -/
def rangeOfBounds (start stop : Nat) : Except DescriptorFault BlockRange :=
  if stop ≤ start then .error (.emptyRange start stop) else .ok ⟨start, stop - start⟩

/-- Reads a pair of the count form. -/
def rangeOfCount (count start : Nat) : Except DescriptorFault BlockRange :=
  if count = 0 then .error (.zeroLength start) else .ok ⟨start, count⟩

/-- Reads values in pairs. -/
def pairs (read : Nat → Nat → Except DescriptorFault BlockRange) :
    List Nat → Except DescriptorFault (List BlockRange)
  | a :: b :: rest => do
    let range ← read a b
    return range :: (← pairs read rest)
  | _ => return []

/-- The ranges that the numbers of a descriptor denote. -/
def rangesOf (declared : Nat) (values : List Nat) : Except DescriptorFault (List BlockRange) :=
  if declared = 0 then .error .zeroRanges
  else if values.length = declared then
    if values.length % 2 ≠ 0 then .error .oddBounds else pairs rangeOfBounds values
  else if values.length = 2 * declared then pairs rangeOfCount values
  else .error (.badCount declared values.length)

/-- The number in a field of a descriptor. -/
def token (field : String) : Except DescriptorFault Nat :=
  match Decimal.parse64 (Blank.trim field) with
  | .ok n => .ok n
  | .error fault => .error (.badToken field fault)

/-- The numbers of a descriptor. -/
def numbers (text : String) : Except DescriptorFault (List Nat) :=
  let trimmed := Blank.trim text
  if trimmed.isEmpty then .error .empty else (Blank.fields ',' trimmed).mapM token

/-- Checks ranges one by one against the limits of byte offsets and block counts, and adds up
their blocks. -/
def addTotals : Nat → List BlockRange → Except DescriptorFault Nat
  | total, [] => .ok total
  | total, r :: rest =>
    if Decimal.limit64 ≤ r.stop * blockSize then .error .offsetOverflow
    else if Decimal.limit64 ≤ total + r.count then .error .totalOverflow
    else addTotals (total + r.count) rest

/-- The ranges that a descriptor denotes. -/
def rangesIn (text : String) : Except DescriptorFault (List BlockRange) := do
  match ← numbers text with
  | [] => throw .empty
  | declared :: values => rangesOf declared values

/-- Computations that change a set in place. -/
abbrev SetM := ExceptT BlockError (StateM BlockSet)

/-- A fault of a descriptor is reported with its text. -/
def report {α : Type} (text : String) : Except DescriptorFault α → SetM α
  | .ok a => pure a
  | .error fault => throw (.descriptor fault text)

/-- Puts the ranges of a descriptor behind those of the set. The checks come before all changes. -/
def extend (text : String) : SetM Unit := do
  let ranges ← report text (rangesIn text)
  let total ← report text (addTotals (← get).total ranges)
  modify fun set => { set with ranges := set.ranges ++ ranges }
  modify fun set => { set with total }

/-- The set with the ranges of a descriptor behind its own. -/
def insert (set : BlockSet) (text : String) : Except BlockError BlockSet :=
  match (extend text).run set with
  | (.ok (), set) => .ok set
  | (.error e, _) => .error e

/-- The set that a descriptor denotes. -/
def parse (text : String) : Except BlockError BlockSet := insert {} text

/-- Size in bytes, as a number: a set may have more blocks than a word can hold the bytes of
(`Compiled.byteLength`). -/
def byteLength (set : BlockSet) : Nat := set.total * blockSize

def isEmpty (set : BlockSet) : Bool := set.total == 0

/-- Whether some range of one set overlaps some range of the other. -/
def overlaps (a b : BlockSet) : Bool := a.ranges.any fun r => b.ranges.any r.overlaps

/-- The range form of a set. -/
def text (set : BlockSet) : String :=
  set.ranges.foldl
    (fun out r => out ++ "," ++ toString r.start ++ "," ++ toString r.stop)
    (toString (2 * set.ranges.length))

end BlockSet

end BlockUpdate
