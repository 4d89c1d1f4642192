import BlockUpdate.Instances

/-!
# Numbers with a fixed number of places

- `FixedPoint.roundHalfEven`: the nearest integer to a quotient, the even one of two.
- `FixedPoint.text`: a quotient with a fixed number of digits behind the point.

**Main statement**: `two_mul_dist_roundHalfEven_le` (the result is at most half a unit away).
-/

namespace BlockUpdate.FixedPoint

/-- The nearest integer to a quotient; of two that are equally near, the even one. -/
def roundHalfEven (num den : Nat) : Nat :=
  let quotient := num / den
  let rest := num % den
  if den < 2 * rest ∨ (2 * rest = den ∧ quotient % 2 = 1) then quotient + 1 else quotient

theorem two_mul_dist_roundHalfEven_le (num den : Nat) (h : 0 < den) :
    2 * (roundHalfEven num den * den) ≤ 2 * num + den ∧
      2 * num ≤ 2 * (roundHalfEven num den * den) + den := by
  have hdiv := Nat.div_add_mod num den
  have hmod := Nat.mod_lt num h
  rw [Nat.mul_comm] at hdiv
  simp only [roundHalfEven]
  split
  · simp only [Nat.add_mul, Nat.one_mul]
    generalize num / den * den = whole at *
    generalize num % den = rest at *
    omega
  · generalize num / den * den = whole at *
    generalize num % den = rest at *
    omega

/-- A quotient with `places` digits behind the point. -/
def text (places num den : Nat) : String :=
  let units := roundHalfEven (num * 10 ^ places) den
  let fraction := toString (units % 10 ^ places)
  toString (units / 10 ^ places) ++ "." ++
    String.ofList (List.replicate (places - fraction.length) '0') ++ fraction

end BlockUpdate.FixedPoint
