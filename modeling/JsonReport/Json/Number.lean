import JsonReport.Binary64.Layout

/-!
# Numbers

A number of a document is a whole number that a machine word holds, unsigned up to `2 ^ 64 - 1` or
negative down to `-2 ^ 63`, or a finite double.  The two never meet: a double is written with a
point or an exponent, a whole number with neither.
-/

namespace JsonReport

abbrev leastWord : Int := -0x8000000000000000

abbrev wordLimit : Int := 0x10000000000000000

structure WholeNumber where
  val : Int
  fits : leastWord ≤ val ∧ val < wordLimit
deriving DecidableEq

inductive Number where
  | whole (n : WholeNumber)
  | double (x : Binary64)
deriving DecidableEq

namespace WholeNumber

def ofInt? (n : Int) : Option WholeNumber :=
  if h : leastWord ≤ n ∧ n < wordLimit then some ⟨n, h⟩ else none

def text (n : WholeNumber) : List Char :=
  if n.val < 0 then '-' :: Nat.toDigits 10 n.val.natAbs else Nat.toDigits 10 n.val.natAbs

end WholeNumber

def Number.text : Number → List Char
  | .whole n => n.text
  | .double x => x.text

end JsonReport
