import BlockUpdate.Text.FixedPoint

/-!
# Progress of an update

A progress bar runs from zero to one over all partitions. The script of a partition owns a share
of it, and each step of the script adds a fraction of that share.

- `Share`: a share, kept by its bits.
- `Progress.advance`: takes a step. The bar never moves backwards and never passes its end, and
  what it shows is posted whenever it grows.
- `Message`: what is posted.
-/

namespace BlockUpdate

/-- A message to whoever watches the update. -/
structure Message where
  topic : String
  payload : String
  deriving Repr, DecidableEq

/-! ## Shares -/

/-- A number of single precision by its bits, so that one that is not a number is given back as it
came. -/
structure Share where
  bits : UInt32
  deriving Repr, DecidableEq

namespace Share

def value (s : Share) : Float32 := Float32.ofBits s.bits

/-- All of the bar. -/
def whole : Share := ⟨0x3f800000⟩

/-- The nearest share between zero and one; what is not a number stays so. -/
def clamp (s : Share) : Share :=
  if s.value < 0 then ⟨0⟩ else if 1 < s.value then whole else s

end Share

/-! ## The bar -/

/-- The state of the progress bar, with everything posted so far. -/
structure Progress where
  /-- How far the bar has come. -/
  total : Float32 := 0
  /-- How far watchers know that it has come. -/
  posted : Float32 := 0
  /-- The share of the script under way. -/
  proportion : Share := Share.whole
  messages : Array Message := #[]

namespace Progress

/-- The value of a number between zero and one as a quotient. -/
def quotient (x : Float32) : Nat × Nat :=
  let bits := x.toBits.toNat
  let exponent := bits / 2 ^ 23 % 256
  let fraction := bits % 2 ^ 23
  if exponent = 0 then (fraction, 2 ^ 149)
  else ((2 ^ 23 + fraction) * 2 ^ (exponent - 150), 2 ^ (150 - exponent))

/-- A position of the bar with six places. -/
def positionText (x : Float32) : String :=
  let (num, den) := quotient x
  FixedPoint.text 6 num den

/-- Posts a message. -/
def post (p : Progress) (topic payload : String) : Progress :=
  { p with messages := p.messages.push ⟨topic, payload⟩ }

/-- Posts a position of the bar. -/
def postPosition (p : Progress) (x : Float32) : Progress := p.post "set_progress" (positionText x)

/-- Announces the bar: its whole length, and the time that it takes by itself. -/
def announce (p : Progress) : Progress :=
  p.post "show_progress" (positionText 1 ++ "," ++ positionText 0)

/-- Sets the share of the next script. -/
def setProportion (p : Progress) (s : Share) : Progress := { p with proportion := s.clamp }

/-- How far the bar comes from `total` by a step; a step that is not a number moves it to its
end. -/
def moved (total step : Float32) : Float32 :=
  let sum := total + step
  if sum < 1 then sum else 1

/-- Adds a fraction of the share of the script under way; a negative one counts as none. -/
def advance (p : Progress) (fraction : Float32) : Progress :=
  let fraction := if 0 < fraction then fraction else 0
  let total := moved p.total (fraction * p.proportion.value)
  if p.posted < total then { p with total, posted := total }.postPosition total
  else { p with total }

/-- Moves the bar to its end. -/
def fill (p : Progress) : Progress := { p with total := 1, posted := 1 }.postPosition 1

end Progress

end BlockUpdate
