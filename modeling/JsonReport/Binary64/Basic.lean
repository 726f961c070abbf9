/-!
# Finite doubles

The non-negative finite doubles in their order are numbered from zero; this rank is also the
number that the bits after the sign spell.  All of them are whole multiples of the least positive
one, `2 ^ -1074`, and `units` counts how many.  A double is a sign and a rank.
-/

namespace JsonReport

namespace Binary64

/-- How many doubles there are from one power of two up to the next. -/
abbrev binade : Nat := 0x10000000000000

/-- The rank at which the finite doubles end. -/
abbrev rankLimit : Nat := 2047 * binade

abbrev signBit : Nat := 0x8000000000000000

end Binary64

structure Binary64 where
  negative : Bool
  rank : Nat
  finite : rank < Binary64.rankLimit
deriving DecidableEq

namespace Binary64

/-- How many times the least positive double the double of this rank is. -/
def units (rank : Nat) : Nat :=
  if rank < binade then rank else (binade + rank % binade) <<< (rank / binade - 1)

/-- How many units make one. -/
def one : Nat := 1 <<< 1074

def zero (negative : Bool) : Binary64 := ⟨negative, 0, by decide⟩

/-- The double of a rank, unless the rank lies beyond the finite ones. -/
def ofRank? (negative : Bool) (rank : Nat) : Option Binary64 :=
  if h : rank < rankLimit then some ⟨negative, rank, h⟩ else none

def toBits (x : Binary64) : Nat := if x.negative then signBit + x.rank else x.rank

def ofBits? (bits : Nat) : Option Binary64 :=
  if bits < signBit then ofRank? false bits else ofRank? true (bits - signBit)

end Binary64

end JsonReport
