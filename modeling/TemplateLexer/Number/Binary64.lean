/-!
# Nearest binary64 numbers

A positive fraction is rounded to the nearest number of the IEEE 754 binary64 format, a tie going to
the even neighbour. The result is the 64-bit encoding; numbers are compared and shown by their bits.

The encoding of `q · 2 ^ e`, with `e` the exponent of the last place, is
`(e + 1074) · 2 ^ 52 + q`: this covers subnormal numbers, normal numbers, and a quotient that was
rounded up to the next power of two.
-/

namespace TemplateLexer.Binary64

/-- The quotient rounded to the nearest whole number, a tie going to the even neighbour. -/
def roundDiv (num den : Nat) : Nat :=
  let q := num / den
  let twice := 2 * (num % den)
  if twice < den ∨ (twice = den ∧ q % 2 = 0) then q else q + 1

/-- A fraction scaled by `2 ^ k`: the power goes to the numerator if `k` is not negative, and to the
denominator otherwise. -/
def scale (num den : Nat) (k : Int) : Nat × Nat :=
  if 0 ≤ k then (num * Nat.pow 2 k.toNat, den) else (num, den * Nat.pow 2 (-k).toNat)

/-- The exponent `k` with `2 ^ k ≤ num / den < 2 ^ (k + 1)`, for positive numbers. -/
def exponent (num den : Nat) : Int :=
  let k : Int := (Nat.log2 num : Int) - Nat.log2 den
  let scaled := scale num den (-k)
  if scaled.1 < scaled.2 then k - 1 else k

/-- The encoding of infinity. -/
def infinity : Nat := 0x7FF0000000000000

/-- An encoding of a number that is not a number. -/
def notANumber : Nat := 0x7FF8000000000000

/-- The encoding of a positive number with a minus sign. -/
def negate (bits : Nat) : Nat := bits + 0x8000000000000000

/-- The encoding of the number nearest to a positive fraction. No encoding is given where the
nearest number is infinite or zero. -/
def ofFraction? (num den : Nat) : Option Nat :=
  let lastPlace := max (exponent num den - 52) (-1074)
  let scaled := scale num den (-lastPlace)
  let q := roundDiv scaled.1 scaled.2
  let bits := (lastPlace + 1074).toNat * 0x10000000000000 + q
  if q = 0 ∨ infinity ≤ bits then none else some bits

end TemplateLexer.Binary64
