import JsonReport.Text.Octets

/-!
# Places in a text

A place is shown as the line it stands on, counted from one, and the number of octets between the
last line feed and it.  A place right after a line feed is therefore column zero of the next line.
-/

namespace JsonReport

structure Position where
  line : Nat
  column : Nat
deriving DecidableEq, Repr

namespace Position

def start : Position := ⟨1, 0⟩

def advance (place : Position) (b : UInt8) : Position :=
  if b = ascii '\n' then ⟨place.line + 1, 0⟩ else ⟨place.line, place.column + 1⟩

def after (s : Octets) : Position := s.foldl advance start

/-- The place `columns` to the left, at most to the beginning of the line. -/
def stepBack (place : Position) (columns : Nat) : Position :=
  ⟨place.line, place.column - columns⟩

/-- The place of `input` from which `unread` is left. -/
def before (input unread : Octets) : Position :=
  after (input.take (input.length - unread.length))

end Position

end JsonReport
