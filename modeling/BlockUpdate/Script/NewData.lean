import BlockUpdate.BlockWriter

/-!
# New data

Data that an update brings along is read once, from front to end, and handed to one writer after
the other. What a read brought and a writer had no room for goes to the next writer.

- `NewData`: a source by the results of its reads.
- `Feed`: how far a source was read.
- `Feed.fill`: fills one writer.
-/

namespace BlockUpdate

/-- The result of one read. -/
inductive Pull
  /-- Some bytes; no bytes are the end of the data. -/
  | bytes (data : Bytes)
  /-- The read was interrupted and can be repeated. -/
  | interrupted
  | failed (error : OsError)
  deriving DecidableEq

/-- A source of new data. -/
structure NewData where
  /-- The results of the first reads. -/
  pulls : List Pull
  /-- The error of every read after those, if they do not find the end of the data. -/
  ending : Option OsError := none

namespace NewData

/-- A read asks for at most this many bytes. -/
def pullSize : Nat := 65536

/-- Cuts data into reads of at most `size` bytes. -/
def pieces (size : Nat) (data : Bytes) : List Bytes :=
  (List.range ((data.size + size - 1) / size)).map fun i =>
    data.extract (i * size) ((i + 1) * size)

/-- The source that delivers a byte string in reads as large as asked for. -/
def ofBytes (data : Bytes) : NewData := ⟨(pieces pullSize data).map .bytes, none⟩

end NewData

/-- Why a writer was not filled. -/
inductive FeedError
  /-- The data ended. -/
  | starved (written expected : Nat)
  | block (error : BlockError)
  /-- The source failed. -/
  | source (error : OsError)
  deriving Repr, DecidableEq

namespace FeedError

def message : FeedError → String
  | .starved written expected =>
    "new data ended after " ++ toString written ++ " of " ++ toString expected ++ " bytes"
  | .block error => "new-data writer failed: " ++ error.message
  | .source error => "reading new data failed: " ++ error.message

/-- Whether the device or the source failed with an input/output error. -/
def isIo : FeedError → Bool
  | .block error => error.isIo
  | .source error => error.isIo
  | .starved .. => false

end FeedError

/-- How far a source was read. -/
structure Feed where
  source : NewData
  /-- Bytes that were read and not written yet. -/
  buffer : Bytes := ByteArray.empty
  /-- Whether the end of the data was met. -/
  exhausted : Bool := false
  /-- The number of bytes read. -/
  consumed : Nat := 0

/-- A feed, the writer being filled and the writer's device. -/
structure Feeding where
  feed : Feed
  writing : Writing

/-- Computations that fill a writer from a feed. -/
abbrev FeedingM (ε : Type) := ExceptT ε (StateM Feeding)

namespace Feed

/-- A feed at the start of a source. -/
def start (source : NewData) : Feed := { source }

/-- Runs a computation of the writer being filled. -/
def onWriter {ε α : Type} (x : WritingM ε α) : FeedingM ε α :=
  ExceptT.mk (fun s =>
    let (result, writing) := x.run s.writing
    (result, { s with writing }))

/-- Renames the errors of a computation of the writer being filled. -/
def writerError {ε ε' α : Type} (f : ε → ε') (x : WritingM ε α) : FeedingM ε' α :=
  onWriter (BlockWriter.mapError f x)

/-- Writes what is in the buffer, as far as the writer has room. A write that fails leaves the
buffer as it was. -/
def writeBuffer : FeedingM FeedError Unit := do
  let buffer := (← get).feed.buffer
  if buffer.size ≠ 0 then
    let n ← writerError (.block ∘ .os) (BlockWriter.write buffer)
    modify fun s => { s with feed.buffer := s.feed.buffer.dropFirst n }

/-- Writes what is left of earlier reads; gives whether the writer is full. -/
def settle : FeedingM FeedError Bool := do
  if !(← get).writing.writer.isDone then
    writeBuffer
  return (← get).writing.writer.isDone

/-- The error of a feed that has no more data for its writer. -/
def starve {α : Type} : FeedingM FeedError α := do
  let w := (← get).writing.writer
  throw (.starved w.written w.expected)

/-- Notes that the end of the data was met. -/
def exhaust : FeedingM FeedError Nat := do
  modify fun s => { s with feed.exhausted := true }
  starve

/-- Reads and writes until the writer is full; the reads to come are given. -/
def fillFrom : List Pull → FeedingM FeedError Nat
  | [] => do
    if ← settle then
      writerError .block BlockWriter.finish
    else if (← get).feed.exhausted then
      starve
    else
      match (← get).feed.source.ending with
      | some error => throw (.source error)
      | none => exhaust
  | pull :: rest => do
    if ← settle then
      writerError .block BlockWriter.finish
    else if (← get).feed.exhausted then
      starve
    else
      modify fun s => { s with feed.source.pulls := rest }
      match pull with
      | .failed error => throw (.source error)
      | .interrupted => fillFrom rest
      | .bytes data =>
        if data.size = 0 then
          exhaust
        else
          modify fun s =>
            { s with feed.buffer := data, feed.consumed := s.feed.consumed + data.size }
          fillFrom rest

/-- Fills a writer; gives the number of bytes written. -/
def fill : FeedingM FeedError Nat := do
  fillFrom (← get).feed.source.pulls

end Feed

end BlockUpdate
