import BlockUpdate.Text.FixedPoint

/-!
# Binary formats of numbers

A format holds the magnitudes `significand * 2 ^ exponent` of limited length and exponent. Read as
a number, the bits of a magnitude count the magnitudes below it, so that the next one up has the
next bits.

- `FloatFormat.nearest`: the bits of the magnitude nearest to a quotient.
- `FloatFormat.decode`: the magnitude that bits stand for.
- `FloatFormat.ofDecimal`: the bits of a decimal number.
-/

namespace BlockUpdate

/-- A power of two times a natural number. -/
structure Scaled where
  significand : Nat
  exponent : Int
  deriving Repr, DecidableEq

/-- A format: how many bits a significand has, and between which exponents it stands. -/
structure FloatFormat where
  precision : Nat
  minExponent : Int
  maxExponent : Int
  deriving Repr, DecidableEq

namespace FloatFormat

/-- Single precision. -/
def single : FloatFormat := ⟨24, -149, 104⟩

/-- Double precision. -/
def double : FloatFormat := ⟨53, -1074, 971⟩

/-- The least significand of full length. -/
def hidden (F : FloatFormat) : Nat := 2 ^ (F.precision - 1)

/-- The bits of infinity, just above those of all finite magnitudes. -/
def infinity (F : FloatFormat) : Nat := ((F.maxExponent - F.minExponent).toNat + 2) * F.hidden

/-- The bits of the usual value that is not a number. -/
def undefined (F : FloatFormat) : Nat := F.infinity + F.hidden / 2

/-- The bits of a magnitude; a significand that a rounding made one bit longer is welcome. -/
def encode (F : FloatFormat) (x : Scaled) : Nat :=
  min ((x.exponent - F.minExponent).toNat * F.hidden + x.significand) F.infinity

/-- The magnitude that bits stand for. Short significands occur with the least exponent alone. -/
def decode (F : FloatFormat) (bits : Nat) : Scaled :=
  if bits < F.hidden then ⟨bits, F.minExponent⟩
  else ⟨bits % F.hidden + F.hidden, (bits / F.hidden : Nat) - 1 + F.minExponent⟩

end FloatFormat

namespace Scaled

/-- A magnitude as a quotient. -/
def quotient (x : Scaled) : Nat × Nat :=
  (x.significand * 2 ^ x.exponent.toNat, 2 ^ (-x.exponent).toNat)

end Scaled

namespace FloatFormat

/-- A quotient as a multiple of a power of two, rounded half to even. -/
def roundAt (num den : Nat) (exponent : Int) : Nat :=
  FixedPoint.roundHalfEven (num * 2 ^ (-exponent).toNat) (den * 2 ^ exponent.toNat)

/-- The bits of the magnitude nearest to a quotient, infinity if it is too large. The quotient is
rounded once, with the least exponent for which its significand is not too long. -/
def nearest (F : FloatFormat) (num den : Nat) : Nat :=
  let guess : Int := (num.log2 : Int) - den.log2 - F.precision
  let exponent := max guess F.minExponent
  let significand := roundAt num den exponent
  if num = 0 then 0
  else if significand < 2 ^ F.precision then F.encode ⟨significand, exponent⟩
  else F.encode ⟨roundAt num den (exponent + 1), exponent + 1⟩

/-- The bits of `digits * 10 ^ exponent`. Numbers far outside the range are settled by their
length. -/
def ofDecimal (F : FloatFormat) (digits : Nat) (exponent : Int) : Nat :=
  let limit : Int := 400
  let length : Int := (toString digits).length
  if digits = 0 ∨ length + exponent < -limit then 0
  else if limit < length + exponent then F.infinity
  else F.nearest (digits * 10 ^ exponent.toNat) (10 ^ (-exponent).toNat)

/-- The bits in this format nearest to what bits of another one stand for. -/
def convert (F G : FloatFormat) (bits : Nat) : Nat :=
  if bits = G.infinity then F.infinity
  else if G.infinity < bits then F.undefined
  else
    let (num, den) := (G.decode bits).quotient
    F.nearest num den

end FloatFormat

end BlockUpdate
