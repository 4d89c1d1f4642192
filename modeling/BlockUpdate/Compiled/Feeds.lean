import BlockUpdate.Compiled.Blocks
import BlockUpdate.Script.NewData

/-!
# Filling a set from new data with words

- `Compiled.fill`: fills a writer from a feed. A writer is asked again and again whether it is full,
  and takes the size of its set each time.
-/

namespace BlockUpdate

namespace Compiled

variable {ε ε' α : Type}

/-- Runs a computation of the writer being filled. -/
def onWriter (f : ε → ε') (x : CompiledM ε Writing α) : CompiledM ε' Feeding α :=
  onPart (·.writing) (fun s writing => { s with writing }) f x

variable (b : Build)

/-- Writes what is in the buffer, as far as the ranges have room. -/
def writeBuffer : CompiledM FeedError Feeding Unit := do
  let buffer := (← get).feed.buffer
  if buffer.size ≠ 0 then
    let n ← onWriter (.block ∘ .os) (writePiece b buffer)
    modify fun s => { s with feed.buffer := s.feed.buffer.dropFirst n }

/-- Writes what is left of earlier reads; gives whether the writer is full. One that is not full and
whose ranges have no room left is asked to write the same bytes for ever. -/
def settle : CompiledM FeedError Feeding Bool := do
  if !(← give (isDone b (← get).writing.writer)) then
    writeBuffer b
  let done ← give (isDone b (← get).writing.writer)
  if !done && (← get).feed.buffer.size != 0 then
    throw .endless
  return done

/-- The error of a feed that has no more data for its writer. How much is missing is taken too, for
a message. -/
def starve : CompiledM FeedError Feeding α := do
  let w := (← get).writing.writer
  let expected ← give (byteLength b w.set)
  let _ ← give (minus b expected w.written)
  throw (.failed (.starved w.written expected))

/-- Notes that the end of the data was met. -/
def exhaust : CompiledM FeedError Feeding Nat := do
  modify fun s => { s with feed.exhausted := true }
  starve b

/-- Reads and writes until the writer is full; the reads to come are given. -/
def fillFrom : List Pull → CompiledM FeedError Feeding Nat
  | [] => do
    if ← settle b then
      onWriter .block (finish b)
    else if (← get).feed.exhausted then
      starve b
    else
      match (← get).feed.source.ending with
      | some error => throw (.failed (.source error))
      | none => exhaust b
  | pull :: rest => do
    if ← settle b then
      onWriter .block (finish b)
    else if (← get).feed.exhausted then
      starve b
    else
      modify fun s => { s with feed.source.pulls := rest }
      match pull with
      | .failed error => throw (.failed (.source error))
      | .interrupted => fillFrom rest
      | .bytes data =>
        if data.size = 0 then
          exhaust b
        else
          modify fun s =>
            { s with feed.buffer := data, feed.consumed := s.feed.consumed + data.size }
          fillFrom rest

/-- Fills a writer; gives the number of bytes written. -/
def fill : CompiledM FeedError Feeding Nat := do
  fillFrom b (← get).feed.source.pulls

end Compiled

end BlockUpdate
