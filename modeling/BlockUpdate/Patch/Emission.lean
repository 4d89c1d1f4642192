import BlockUpdate.Bytes
import BlockUpdate.Patch.Error

/-!
# Output that leaves in pieces

Applying a patch hands its output over in pieces, in order, and may fail after some of them. What
comes out does not depend on who receives it, so an application is a computation in `Emit`: the
pieces so far, and then a result or an error.

- `emit`: hands over one piece.
- `Emission`: the pieces and the outcome of a whole computation.
- `Emission.deliver`: passes the pieces to a receiver, which may refuse one; the receiver's error
  then comes first.

**Main statements**: `deliver_total` (a receiver that never refuses gets every piece and the
outcome is the computation's own).
-/

namespace BlockUpdate

/-- Computations that hand over pieces of output and may fail. -/
abbrev Emit := ExceptT PatchError (StateM (Array Bytes))

/-- Hands over one piece. -/
def emit (piece : Bytes) : Emit Unit := modify (·.push piece)

/-- Runs a fallible step that hands over nothing. -/
def Emit.ofExcept {α : Type} (step : Except PatchError α) : Emit α := liftExcept step
where
  liftExcept {α : Type} : Except PatchError α → Emit α
    | .ok a => pure a
    | .error e => throw e

/-- What a computation handed over, and how it ended. -/
structure Emission (α : Type) where
  pieces : List Bytes
  outcome : Except PatchError α

/-- Runs a computation from the start. -/
def Emit.emission {α : Type} (run : Emit α) : Emission α :=
  let (outcome, pieces) := (ExceptT.run run).run #[]
  ⟨pieces.toList, outcome⟩

namespace Emission

/-- All bytes handed over. -/
def bytes {α : Type} (e : Emission α) : Bytes := Bytes.join e.pieces

/-- Passes pieces to a receiver until it refuses one. -/
def deliverPieces {σ : Type} (put : σ → Bytes → Except PatchError Unit × σ) :
    List Bytes → σ → Except PatchError Unit × σ
  | [], s => (.ok (), s)
  | piece :: rest, s =>
    match put s piece with
    | (.ok (), s) => deliverPieces put rest s
    | (.error e, s) => (.error e, s)

/-- Passes all pieces to a receiver; a refusal is the outcome, and otherwise the computation's own
outcome stands. -/
def deliver {σ α : Type} (put : σ → Bytes → Except PatchError Unit × σ) (e : Emission α) (s : σ) :
    Except PatchError α × σ :=
  match deliverPieces put e.pieces s with
  | (.ok (), s) => (e.outcome, s)
  | (.error err, s) => (.error err, s)

theorem deliver_total {σ α : Type} {put : σ → Bytes → Except PatchError Unit × σ}
    {next : σ → Bytes → σ} (h : ∀ s piece, put s piece = (.ok (), next s piece))
    (e : Emission α) (s : σ) : deliver put e s = (e.outcome, e.pieces.foldl next s) := by
  have key : ∀ (pieces : List Bytes) (s : σ),
      deliverPieces put pieces s = (.ok (), pieces.foldl next s) := by
    intro pieces
    induction pieces with
    | nil => intro s; rfl
    | cons piece rest ih =>
      intro s
      rw [deliverPieces, h]
      exact ih (next s piece)
  rw [deliver, key]

end Emission

end BlockUpdate
