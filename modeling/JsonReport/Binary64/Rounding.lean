import JsonReport.Binary64.Basic

/-!
# Rounding to a double

A quotient of whole numbers is rounded to the nearest rank, a half to the even one.  The scale is
read off the binary length of the quotient, so that the rounded significand has 53 digits, or the
scale of the least doubles where it would have fewer.  A significand that rounds up to `2 ^ 53`
carries into the next scale by itself, because scale and significand are added.

Products, quotients and whole numbers are rounded once, from their exact value.
-/

namespace JsonReport.Binary64

/-- A quotient rounded to the nearest whole number, a half to the even one. -/
def roundHalfEven (numerator denominator : Nat) : Nat :=
  let quotient := numerator / denominator
  let twice := 2 * (numerator % denominator)
  if twice < denominator then quotient
  else if denominator < twice then quotient + 1
  else quotient + quotient % 2

/-- The rank nearest to a number of units given as a quotient; it may lie beyond the finite
doubles. -/
def nearestRank (numerator denominator : Nat) : Nat :=
  let scale := (numerator / denominator).log2 - 52
  scale * binade + roundHalfEven numerator (denominator <<< scale)

def tenPower (exponent : Nat) : Nat := Nat.pow 10 exponent

def rankOfNat (n : Nat) : Nat := nearestRank (n * one) 1

def mulRank (x y : Nat) : Nat := nearestRank (units x * units y) one

def divRank (x y : Nat) : Nat := nearestRank (units x * one) (units y)

end JsonReport.Binary64
