import JsonReport.Binary64.Rounding

/-!
# Reading a scaled significand

A significand below `2 ^ 64` and a power of ten become a double in two or more rounded steps: the
significand is rounded to a double, then multiplied or divided by the double nearest to the power
of ten, of which there is one up to `10 ^ 308`.  Exponents below that are taken off in portions of
`308`.  The result can differ from the nearest double in its last places; what is fixed is the
procedure.  It fails only where a product would be infinite.
-/

namespace JsonReport.Binary64

/-- The greatest exponent whose power of ten is finite. -/
def greatestTen : Nat := 308

def tenRank (exponent : Nat) : Nat := rankOfNat (tenPower exponent)

/-- The rank of `x` times a power of ten, rounded at each step, or nothing when it is too great. -/
def scaleRank (x : Nat) (exponent : Int) : Option Nat :=
  if exponent.natAbs ≤ greatestTen then
    if 0 ≤ exponent then
      let product := mulRank x (tenRank exponent.natAbs)
      if product < rankLimit then some product else none
    else
      some (divRank x (tenRank exponent.natAbs))
  else if x = 0 then
    some 0
  else if 0 ≤ exponent then
    none
  else
    -- Powers of ten beyond the greatest one are divided by in steps, each of them rounded.
    scaleRank (divRank x (tenRank greatestTen)) (exponent + greatestTen)
termination_by exponent.natAbs
decreasing_by simp only [greatestTen] at *; omega

/-- The double that a significand, a power of ten and a sign stand for, or nothing when it is too
great. -/
def ofScaled? (negative : Bool) (significand : Nat) (exponent : Int) : Option Binary64 :=
  (scaleRank (rankOfNat significand) exponent).bind (ofRank? negative)

end JsonReport.Binary64
