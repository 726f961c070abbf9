import JsonReport.Binary64.Rounding

/-!
# The shortest decimal

The decimals that round to a double fill an interval around it, from halfway to the double below to
halfway to the double above, ends included when the rank is even.  A grid of decimals is tried for
one significant digit, two, and so on up to seventeen; the first grid with a point in the interval
wins, of two such points the nearer, and of two equally near the even one.  Only the two grid
points next to the double need to be looked at.

All quantities are whole numbers, counted in the last decimal place that can matter.
-/

namespace JsonReport.Binary64

/-- The last decimal place: seventeen digits of the least double end there. -/
def lastPlace : Nat := 340

def mostDigits : Nat := 17

/-- A decimal: a significand without trailing zeros, by its digits, and the exponent of the first
digit. -/
structure Decimal where
  digits : List Char
  exponent : Int
deriving DecidableEq

/-- Whether `point` steps of `10 ^ place` round to the double of this rank. -/
def roundsTo (rank point place : Nat) : Bool :=
  let doubled := 2 * one * (point * tenPower place)
  let low := (units (rank - 1) + units rank) * tenPower lastPlace
  let high := (units rank + units (rank + 1)) * tenPower lastPlace
  if rank % 2 = 0 then low ≤ doubled && doubled ≤ high else low < doubled && doubled < high

/-- The better of the two points next to a double on the grid of `10 ^ place`, if one rounds to
it. -/
def gridPoint? (rank place : Nat) : Option Nat :=
  let scaled := units rank * tenPower lastPlace
  let step := one * tenPower place
  let near := roundHalfEven scaled step
  let far := 2 * (scaled / step) + 1 - near
  if roundsTo rank near place then some near
  else if roundsTo rank far place then some far
  else none

def decimalDigits (n : Nat) : List Char := Nat.toDigits 10 n

def Decimal.ofPoint (point place : Nat) : Decimal :=
  let digits := decimalDigits point
  ⟨(digits.reverse.dropWhile (· == '0')).reverse, digits.length - 1 + place - lastPlace⟩

/-- The first of the finer and finer grids that has a point for this rank. -/
def shortestFrom? (rank : Nat) : List Nat → Option Decimal
  | [] => none
  | place :: finer =>
    match gridPoint? rank place with
    | some point => some (.ofPoint point place)
    | none => shortestFrom? rank finer

/-- The shortest decimal that reads back as the double of a positive rank. -/
def shortest (rank : Nat) : Decimal :=
  let length := (decimalDigits (units rank * tenPower lastPlace / one)).length
  let places := (List.range mostDigits).map fun count => length - (count + 1)
  (shortestFrom? rank places).getD (.ofPoint 0 0)

end JsonReport.Binary64
