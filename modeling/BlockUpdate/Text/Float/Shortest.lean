import BlockUpdate.Text.Float.Format

/-!
# The shortest decimal form of a number

- `Shortest.digits`: the decimal number with the fewest digits among those that read back as a
  magnitude, the nearest of them.
- `Shortest.text`: its text, written without an exponent.
-/

namespace BlockUpdate.Shortest

/-- The decimal number `digits * 10 ^ exponent`. -/
structure DecimalNumber where
  digits : Nat
  exponent : Int
  deriving Repr, DecidableEq

/-- The numbers that round to a magnitude lie between two bounds, which count themselves if the
significand is even. All are in units of a quarter of the last bit, times a common power of two. -/
structure Basin where
  value : Nat
  lower : Nat
  upper : Nat
  closed : Bool
  /-- What the three are to be divided by. -/
  unit : Nat

/-- The basin of a magnitude. Below the least significand of full length the magnitudes lie twice
as close. -/
def basin (F : FloatFormat) (x : Scaled) : Basin :=
  let scale := 2 ^ x.exponent.toNat
  let narrow := x.significand = F.hidden ∧ F.minExponent < x.exponent
  { value := 4 * x.significand * scale
    lower := (4 * x.significand - if narrow then 1 else 2) * scale
    upper := (4 * x.significand + 2) * scale
    closed := x.significand % 2 = 0
    unit := 4 * 2 ^ (-x.exponent).toNat }

/-- Whether a quotient lies in a basin. -/
def Basin.contains (b : Basin) (num den : Nat) : Bool :=
  let low := b.lower * den
  let high := b.upper * den
  let point := num * b.unit
  if b.closed then low ≤ point && point ≤ high else low < point && point < high

/-- The point of a decimal grid that lies in a basin, the nearest to its value; of two that are
equally near the upper one. Only the two neighbours of the value can be meant. -/
def onGrid? (b : Basin) (exponent : Int) : Option DecimalNumber :=
  let up := 10 ^ exponent.toNat
  let down := 10 ^ (-exponent).toNat
  let below := b.value * down / (b.unit * up)
  let fits (n : Nat) : Bool := b.contains (n * up) down
  let twice := 2 * b.value * down
  let middle := (2 * below + 1) * (b.unit * up)
  if fits below && (twice < middle || !fits (below + 1)) then some ⟨below, exponent⟩
  else if fits (below + 1) then some ⟨below + 1, exponent⟩
  else none

/-- The first hit on grids that become ten times finer from step to step. -/
def search (b : Basin) : Nat → Int → DecimalNumber
  | 0, exponent => ⟨0, exponent⟩
  | steps + 1, exponent => (onGrid? b exponent).getD (search b steps (exponent - 1))

/-- The coarsest grid on which double precision has numbers. -/
def coarsest : Int := 308

/-- The number of grids down to the one on which every number of double precision has its digits. -/
def grids : Nat := 700

/-- The decimal number with the fewest digits that reads back as a magnitude. -/
def digits (F : FloatFormat) (x : Scaled) : DecimalNumber := search (basin F x) grids coarsest

/-- A decimal number without an exponent, and with a point. -/
def positional (d : DecimalNumber) : String :=
  if 0 ≤ d.exponent then toString (d.digits * 10 ^ d.exponent.toNat) ++ ".0"
  else FixedPoint.text (-d.exponent).toNat d.digits (10 ^ (-d.exponent).toNat)

/-- The shortest text of a magnitude. -/
def text (F : FloatFormat) (x : Scaled) : String :=
  if x.significand = 0 then "0.0" else positional (digits F x)

end BlockUpdate.Shortest
