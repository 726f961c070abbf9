import JsonReport.Binary64.Shortest

/-!
# The text of a double

A double is written with its shortest digits, positionally from `1e-5` up to below `1e16` and with
an exponent outside, always with a sign and never padded.  A positional text has at least one
digit on either side of the point, so that it is never read as a whole number.
-/

namespace JsonReport.Binary64

/-- The exponents of the first digit for which a decimal is written positionally. -/
def positional (exponent : Int) : Bool := -5 ≤ exponent && exponent ≤ 15

def Decimal.positionalText (x : Decimal) : List Char :=
  if x.exponent < 0 then
    '0' :: '.' :: (List.replicate (-x.exponent - 1).toNat '0' ++ x.digits)
  else
    let whole := x.exponent.toNat + 1
    let fraction := x.digits.drop whole
    x.digits.take whole ++ List.replicate (whole - x.digits.length) '0' ++
      '.' :: (if fraction.isEmpty then ['0'] else fraction)

def exponentText (exponent : Int) : List Char :=
  'e' :: (if exponent < 0 then '-' else '+') :: decimalDigits exponent.natAbs

def Decimal.exponentialText (x : Decimal) : List Char :=
  let fraction := x.digits.drop 1
  x.digits.take 1 ++ (if fraction.isEmpty then [] else '.' :: fraction) ++ exponentText x.exponent

def Decimal.text (x : Decimal) : List Char :=
  if positional x.exponent then x.positionalText else x.exponentialText

def rankText (rank : Nat) : List Char :=
  if rank = 0 then ['0', '.', '0'] else (shortest rank).text

def text (x : Binary64) : List Char :=
  if x.negative then '-' :: rankText x.rank else rankText x.rank

end JsonReport.Binary64
