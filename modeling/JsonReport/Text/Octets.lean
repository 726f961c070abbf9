/-!
# Raw text

Payloads, paths and arguments arrive as octets, and a reader speaks of a place in them by what is
left from there on.  A reading that takes something says so in its result: what is left is shorter
than what it was given.  Every loop over a text ends for that reason.
-/

namespace JsonReport

abbrev Octets := List UInt8

def ascii (c : Char) : UInt8 := c.toNat.toUInt8

/-- What a reading of `s` yields: a value, and the shorter text that is left. -/
structure Taken (s : Octets) (α : Type) where
  value : α
  rest : Octets
  shorter : rest.length < s.length

namespace Taken

/-- The same reading seen from one octet further back. -/
def cons {s : Octets} {α : Type} (b : UInt8) (taken : Taken s α) : Taken (b :: s) α :=
  ⟨taken.value, taken.rest, Nat.lt_succ_of_lt taken.shorter⟩

/-- The same reading seen from a longer text. -/
def past {s t : Octets} {α : Type} (taken : Taken t α) (h : t.length < s.length) : Taken s α :=
  ⟨taken.value, taken.rest, Nat.lt_trans taken.shorter h⟩

/-- The same reading seen from a text in which its first octet was found. -/
def found {s t : Octets} {α : Type} {b : UInt8} (taken : Taken (b :: t) α)
    (h : t.length < s.length) : Taken s α :=
  ⟨taken.value, taken.rest, Nat.lt_of_le_of_lt (Nat.le_of_lt_succ taken.shorter) h⟩

def map {s : Octets} {α β : Type} (f : α → β) (taken : Taken s α) : Taken s β :=
  ⟨f taken.value, taken.rest, taken.shorter⟩

end Taken

end JsonReport
