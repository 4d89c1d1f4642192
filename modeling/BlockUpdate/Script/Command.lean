import BlockUpdate.BlockSet

/-!
# Commands

A transfer list is a script of one command a line: a verb and its arguments, separated by blanks.

- `Verb`: what a command does, and how many arguments it needs.
- `Command.parse`: the command on a line; a blank line holds none.
- `Command.arg`, `Command.number`, `Command.blockSet`: an argument by its position.
- `Command.target?`: the blocks that a command may write.
-/

namespace BlockUpdate

/-- What a command does. -/
inductive Verb
  | abort
  | new
  | zero
  | erase
  | move
  | bsdiff
  | imgdiff
  | stash
  | free
  | copy
  /-- Any other word; the line is no instruction. -/
  | other
  deriving Repr, DecidableEq

namespace Verb

/-- The verb that a word stands for. -/
def ofText : String → Verb
  | "abort" => .abort
  | "new" => .new
  | "zero" => .zero
  | "erase" => .erase
  | "free" => .free
  | "stash" => .stash
  | "move" => .move
  | "bsdiff" | "pkgdiff" => .bsdiff
  | "imgdiff" => .imgdiff
  | "copy" => .copy
  | _ => .other

/-- The word by which messages call a verb. -/
def text : Verb → String
  | .abort => "abort"
  | .new => "new"
  | .zero => "zero"
  | .erase => "erase"
  | .move => "move"
  | .bsdiff => "bsdiff"
  | .imgdiff => "imgdiff"
  | .stash => "stash"
  | .free => "free"
  | .copy => "copy"
  | .other => "last"

/-- The number of arguments that a command needs at least. -/
def minArguments : Verb → Nat
  | .abort | .other => 0
  | .new | .zero | .erase | .free => 1
  | .stash => 2
  | .move | .copy => 4
  | .bsdiff | .imgdiff => 7

/-- Whether commands of a verb move the progress bar. -/
def countsProgress : Verb → Bool
  | .new | .imgdiff | .bsdiff | .zero => true
  | _ => false

end Verb

/-- What is wrong with the value of an argument. -/
inductive ArgumentFault
  | notANumber (fault : Decimal.Fault)
  /-- A source range has more blocks than the source. -/
  | tooManyBlocks (limit : Nat)
  /-- A range and its locations differ in size. -/
  | locationCount
  /-- Locations end past the source. -/
  | outsideSource
  /-- Locations need more data than there is. -/
  | outsideData
  /-- A stash piece has no colon. -/
  | malformedPiece
  /-- A patch ends past the patch data. -/
  | outsidePatchData (size : Nat)
  deriving Repr, DecidableEq

def ArgumentFault.message : ArgumentFault → String
  | .notANumber fault => fault.message
  | .tooManyBlocks limit => "more than " ++ toString limit ++ " source blocks"
  | .locationCount => "location count differs from range"
  | .outsideSource => "locations exceed source buffer"
  | .outsideData => "locations exceed source data"
  | .malformedPiece => "expected <id>:<locations>"
  | .outsidePatchData size => "outside " ++ toString size ++ " bytes of patch data"

/-- Why a command or one of its arguments cannot be read. -/
inductive CommandError
  /-- The argument at a position, counted from one, is missing. -/
  | missingArgument (verb : Verb) (position : Nat)
  | badArgument (verb : Verb) (value : String) (fault : ArgumentFault)
  | block (error : BlockError)
  deriving Repr, DecidableEq

def CommandError.message : CommandError → String
  | .missingArgument verb position => verb.text ++ ": missing argument " ++ toString position
  | .badArgument verb value fault =>
    verb.text ++ ": bad argument " ++ Quoted.encode value ++ ": " ++ fault.message
  | .block error => error.message

/-- A command and where it stands in its script. -/
structure Command where
  verb : Verb
  args : List String
  /-- The line without the blanks around it. -/
  line : String
  /-- The position of the line among those behind the header. -/
  index : Nat
  deriving Repr, DecidableEq

namespace Command

/-- Reads the command on a line. A blank line holds none. -/
def parse (index : Nat) (line : String) : Except CommandError (Option Command) :=
  match Blank.words line with
  | [] => .ok none
  | word :: args =>
    let verb := Verb.ofText word
    if args.length < verb.minArguments then
      .error (.missingArgument verb (args.length + 1))
    else
      .ok (some ⟨verb, args, Blank.trim line, index⟩)

/-- The argument at a position, counted from zero. -/
def arg (c : Command) (position : Nat) : Except CommandError String :=
  match c.args[position]? with
  | some value => .ok value
  | none => .error (.missingArgument c.verb (position + 1))

/-- The number at a position. -/
def number (c : Command) (position : Nat) : Except CommandError Nat := do
  let value ← c.arg position
  match Decimal.parse64 value with
  | .ok n => return n
  | .error fault => throw (.badArgument c.verb value (.notANumber fault))

/-- The block set that a text denotes. -/
def blockSetOf (descriptor : String) : Except CommandError BlockSet :=
  (BlockSet.parse descriptor).mapError .block

/-- The block set at a position. -/
def blockSet (c : Command) (position : Nat) : Except CommandError BlockSet := do
  blockSetOf (← c.arg position)

/-- The position of the argument that names the target, for verbs that have one. -/
def targetPosition? (c : Command) : Option Nat :=
  match c.verb with
  | .new | .zero | .erase => some 0
  | .move | .copy => some 1
  | .bsdiff | .imgdiff => some 4
  | _ => none

/-- The blocks that a command may write. -/
def target? (c : Command) : Option BlockSet := do
  (c.blockSet (← c.targetPosition?)).toOption

end Command

end BlockUpdate
