import BlockUpdate.Instances

/-!
# The curve of Ed25519

The twisted Edwards curve `y² - x² = 1 + d x² y²` over the integers modulo `2 ^ 255 - 19`. Points
are kept in extended coordinates, in which addition needs no division: `x = X / Z`, `y = Y / Z`
and `x y = T / Z`.

- `Curve.Point.add`, `Curve.Point.scale`: the group.
- `Curve.Point.compress`, `Curve.Point.decompress`: a point as a number of 256 bits, the `y`
  coordinate below the lowest bit of the `x` coordinate.
-/

namespace BlockUpdate.Curve

/-! ## The field -/

/-- The modulus. -/
def prime : Nat := 2 ^ 255 - 19

/-- The order of the base point. -/
def order : Nat := 2 ^ 252 + 27742317777372353535851937790883648493

/-- Difference modulo the prime, of reduced numbers. -/
def sub (a b : Nat) : Nat := (a + prime - b) % prime

/-- Product modulo the prime. -/
def mul (a b : Nat) : Nat := a * b % prime

/-- Power modulo the prime; the exponent has at most `bits` bits. -/
def powBits (base : Nat) : Nat → Nat → Nat
  | 0, _ => 1
  | bits + 1, exponent =>
    let half := powBits base bits (exponent / 2)
    let square := mul half half
    if exponent % 2 = 1 then mul square base else square

/-- Power modulo the prime. -/
def pow (base exponent : Nat) : Nat := powBits base (exponent.log2 + 1) exponent

/-- Inverse modulo the prime; zero for zero. -/
def inverse (a : Nat) : Nat := pow a (prime - 2)

/-- A square root of minus one. -/
def rootOfMinusOne : Nat :=
  19681161376707505956807079304988542015446066515923890162744021073123829784752

/-- The coefficient of the curve. -/
def coefficient : Nat :=
  37095705934669439343138083508754565189542113879843219016388785533085940283555

/-- The even square root of a quotient, if it has one. -/
def evenRoot? (num den : Nat) : Option Nat :=
  let cube := mul (mul den den) den
  let seventh := mul (mul cube cube) den
  let root := mul (mul num cube) (pow (mul num seventh) ((prime - 5) / 8))
  let check := mul den (mul root root)
  let found :=
    if check = num then some root
    else if check = sub 0 num then some (mul root rootOfMinusOne)
    else none
  found.map fun r => if r % 2 = 1 then sub 0 r else r

/-! ## Points -/

/-- A point in extended coordinates. -/
structure Point where
  x : Nat
  y : Nat
  z : Nat
  t : Nat
  deriving Repr, DecidableEq

namespace Point

/-- The neutral point. -/
def zero : Point := ⟨0, 1, 1, 0⟩

/-- The point with given coordinates. -/
def ofAffine (x y : Nat) : Point := ⟨x, y, 1, mul x y⟩

/-- The base point. -/
def base : Point :=
  ofAffine 15112221349535400772501151409588531511454012693041857206046113283949847762202
    46316835694926478169428394003475163141307993866256225615783033603165251855960

/-- The sum of two points. -/
def add (p q : Point) : Point :=
  let a := mul (sub p.y p.x) (sub q.y q.x)
  let b := mul (p.y + p.x) (q.y + q.x)
  let c := mul (mul (2 * coefficient) p.t) q.t
  let d := mul (2 * p.z) q.z
  let e := sub b a
  let f := sub d c
  let g := (d + c) % prime
  let h := (b + a) % prime
  ⟨mul e f, mul g h, mul f g, mul e h⟩

/-- The negative of a point. -/
def neg (p : Point) : Point := ⟨sub 0 p.x, p.y, p.z, sub 0 p.t⟩

/-- A multiple of a point; the factor has at most `bits` bits. -/
def scaleBits (p : Point) : Nat → Nat → Point
  | 0, _ => zero
  | bits + 1, factor =>
    let half := scaleBits p bits (factor / 2)
    let double := half.add half
    if factor % 2 = 1 then double.add p else double

/-- A multiple of a point. -/
def scale (factor : Nat) (p : Point) : Point := scaleBits p (factor.log2 + 1) factor

/-- A point as a number. -/
def compress (p : Point) : Nat :=
  let inverse := inverse p.z
  let x := mul p.x inverse
  let y := mul p.y inverse
  y + 2 ^ 255 * (x % 2)

/-- The point of a number, if there is one. A `y` coordinate may be too large by the prime, and a
zero `x` coordinate may have either sign. -/
def decompress (n : Nat) : Option Point := do
  let y := n % 2 ^ 255 % prime
  let square := mul y y
  let x ← evenRoot? (sub square 1) ((mul coefficient square + 1) % prime)
  let x := if n / 2 ^ 255 % 2 = 1 then sub 0 x else x
  return ofAffine x y

end Point

end BlockUpdate.Curve
