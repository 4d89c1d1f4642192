import BlockUpdate.Bytes.LittleEndian
import BlockUpdate.Text.Quoted
import BlockUpdate.Text.Utf8

/-!
# Records

A record is a tag of two bytes, a length of two or four bytes, and a value of that length, all
little-endian.

- `RecordReader.read`: the next record of a byte string, with the bytes that it takes there. A read
  that fails does not move on.
- `Record.encode`: the bytes of a record.
- `Record.expect`, `Record.number`, `Record.text`: what a value should be.
-/

namespace BlockUpdate

/-- Why records cannot be read or written. -/
inductive RecordFault
  /-- The input ends inside the tag and length at a position. -/
  | truncatedHeader (position : Nat)
  /-- The record at a position needs more bytes than are left. -/
  | truncatedValue (position needed left : Nat)
  | wrongTag (expected found : Nat)
  /-- A number of so many bits does not have the value's size. -/
  | wrongWidth (bits size : Nat)
  | badText (fault : Utf8.Fault)
  /-- A value does not fit a length of so many bits. -/
  | tooLong (size bits : Nat)
  | tooManyPartitions
  deriving Repr, DecidableEq

/-- A tag in four hexadecimal digits. -/
def tagText (tag : Nat) : String :=
  let digits := Quoted.hexDigits tag
  "0x" ++ String.ofList (List.replicate (4 - digits.length) '0') ++ digits

def RecordFault.message : RecordFault → String
  | .truncatedHeader position => "truncated header at " ++ toString position
  | .truncatedValue position needed left =>
    "record at " ++ toString position ++ " needs " ++ toString needed ++ " bytes, " ++
      toString left ++ " left"
  | .wrongTag expected found => "expected tag " ++ tagText expected ++ ", found " ++ tagText found
  | .wrongWidth bits size => "u" ++ toString bits ++ " value has " ++ toString size ++ " bytes"
  | .badText fault => "bad string: " ++ fault.message
  | .tooLong size bits => "value of " ++ toString size ++ " bytes exceeds u" ++ toString bits
  | .tooManyPartitions => "too many partitions"

/-- How wide the length of a record is. -/
inductive RecordForm
  | short
  | long
  deriving Repr, DecidableEq

/-- The number of bytes of the length. -/
def RecordForm.lengthBytes : RecordForm → Nat
  | .short => 2
  | .long => 4

/-- The number of bytes before the value. -/
def RecordForm.headerSize (form : RecordForm) : Nat := 2 + form.lengthBytes

/-- A tag and a value. -/
structure Record where
  tag : Nat
  value : Bytes
  deriving DecidableEq

namespace Record

/-- The bytes of a record, if its value is short enough for the form. -/
def encode (form : RecordForm) (r : Record) : Except RecordFault Bytes :=
  if r.value.size < 256 ^ form.lengthBytes then
    .ok (LittleEndian.encode 2 r.tag ++ LittleEndian.encode form.lengthBytes r.value.size ++
      r.value)
  else .error (.tooLong r.value.size (8 * form.lengthBytes))

/-- Requires a tag. -/
def expect (r : Record) (tag : Nat) : Except RecordFault Record :=
  if r.tag = tag then .ok r else .error (.wrongTag tag r.tag)

/-- The number that fills a value of `width` bytes. -/
def number (width : Nat) (r : Record) : Except RecordFault Nat :=
  if r.value.size = width then .ok (LittleEndian.decode r.value)
  else .error (.wrongWidth (8 * width) r.value.size)

/-- The text of a value. -/
def text (r : Record) : Except RecordFault String := (Utf8.decode r.value).mapError .badText

end Record

/-- A record that was read, and the bytes of it as they stand in the input. -/
structure ReadRecord extends Record where
  /-- Tag, length and value. -/
  raw : Bytes
  deriving DecidableEq

/-- A position in a byte string from which records are read one after the other. -/
structure RecordReader where
  data : Bytes
  position : Nat := 0

namespace RecordReader

/-- The number of bytes that were not read yet. -/
def remaining (r : RecordReader) : Nat := r.data.size - r.position

/-- The next record, and the reader behind it. -/
def read (form : RecordForm) (r : RecordReader) :
    Except RecordFault (ReadRecord × RecordReader) :=
  match LittleEndian.read? r.data r.position 2,
      LittleEndian.read? r.data (r.position + 2) form.lengthBytes with
  | some tag, some length =>
    let needed := form.headerSize + length
    match r.data.slice? r.position needed with
    | some raw =>
      .ok (⟨⟨tag, raw.dropFirst form.headerSize⟩, raw⟩, { r with position := r.position + needed })
    | none => .error (.truncatedValue r.position needed r.remaining)
  | _, _ => .error (.truncatedHeader r.position)

end RecordReader

end BlockUpdate
