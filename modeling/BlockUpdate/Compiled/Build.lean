import BlockUpdate.Text.Decimal

/-!
# Numbers in words

The definitions of the library compute sizes, offsets and positions as numbers of any size. The
program that is built from them holds each in a word of sixty-four bits, and how it was built
decides what becomes of a number that does not fit there. The modules of this directory follow the
program in this: every operation on a size is one on words, every window of a buffer is looked up
before it is used, and a loop that does not get on is told apart from one that ends.

- `Build`: the two kinds of builds. `Halt`: why a computation ends early.
- `CompiledM`: computations on words.
- `Compiled.size`, `Compiled.minus`: the operations on words.
- `Compiled.step`, `Compiled.onPart`: a computation without such operations, or one on a part of the
  state, as a step of one on words.

Memory is not bounded here: a buffer may have any size that a word can hold.
-/

namespace BlockUpdate

open Decimal (limit64)

/-- How the program was built: what becomes of a number that does not fit a word. -/
inductive Build
  /-- Every operation is checked, and the program stops at the first such number. -/
  | checked
  /-- The program goes on with the lowest sixty-four bits. -/
  | wrapping
  deriving Repr, DecidableEq

/-- Why a computation on words ends early, or does not end. -/
inductive Halt (ε : Type)
  /-- A number does not fit a word, in a build that checks this. -/
  | overflow
  /-- A window is not inside its buffer. -/
  | outOfBounds
  /-- A loop is repeated without any change. -/
  | endless
  | failed (error : ε)
  deriving Repr, DecidableEq

/-- Renames the errors of a computation. -/
def Halt.map {ε ε' : Type} (f : ε → ε') : Halt ε → Halt ε'
  | .overflow => .overflow
  | .outOfBounds => .outOfBounds
  | .endless => .endless
  | .failed e => .failed (f e)

/-- Computations on words. -/
abbrev CompiledM (ε σ : Type) := ExceptT (Halt ε) (StateM σ)

namespace Compiled

variable {ε ε' σ τ α : Type}

/-- A number in a word. -/
def size (b : Build) (n : Nat) : Except (Halt ε) Nat :=
  if n < limit64 then .ok n
  else
    match b with
    | .checked => .error .overflow
    | .wrapping => .ok (n % limit64)

/-- The difference of two words. -/
def minus (b : Build) (x y : Nat) : Except (Halt ε) Nat :=
  if y ≤ x then .ok (x - y)
  else
    match b with
    | .checked => .error .overflow
    | .wrapping => .ok (x + limit64 - y)

/-- The window from `start` to `stop` of a buffer, which must hold it. -/
def window (room start stop : Nat) : Except (Halt ε) Unit :=
  if start ≤ stop ∧ stop ≤ room then .ok () else .error .outOfBounds

/-- A result as a step. -/
def give (x : Except (Halt ε) α) : CompiledM ε σ α := ExceptT.mk (fun s => (x, s))

/-- A result that no word has a part in. -/
def unchecked (y : Except ε α) : Except (Halt ε) α := y.mapError .failed

/-- A computation without operations on words. -/
def step (y : ExceptT ε (StateM σ) α) : CompiledM ε σ α :=
  ExceptT.mk (fun s =>
    let ended := y.run s
    (unchecked ended.1, ended.2))

/-- Looks at the state. -/
def look (f : σ → Except (Halt ε) α) : CompiledM ε σ α := ExceptT.mk (fun s => (f s, s))

/-- Runs a computation on a part of the state. -/
def onPart (part : σ → τ) (put : σ → τ → σ) (f : ε → ε') (x : CompiledM ε τ α) : CompiledM ε' σ α :=
  ExceptT.mk (fun s =>
    let ended := x.run (part s)
    (ended.1.mapError (.map f), put s ended.2))

/-- Renames the errors of a computation. -/
def rename (f : ε → ε') (x : CompiledM ε σ α) : CompiledM ε' σ α := onPart id (fun _ s => s) f x

end Compiled

end BlockUpdate
