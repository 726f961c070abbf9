import JsonReport.Json.Number
import JsonReport.Text.Position

/-!
# Why a text is refused

A fault names its cause and where the reading stood: what was left unread, and by how many columns
the place to be shown lies before that.  The place is computed from the text once, when the fault
is reported.
-/

namespace JsonReport

inductive Found where
  | bool (flag : Bool)
  | number (n : Number)
  | null
  | string (text : String)
  | sequence
  | map
deriving DecidableEq

inductive Wanted where
  | boolean
  | string
  | record
deriving DecidableEq, Repr

inductive Field where
  | enabled
  | hostname
  | port
deriving DecidableEq, Repr

namespace Field

def key : Field → String
  | .enabled => "lt_enabled"
  | .hostname => "lt_api_hostname"
  | .port => "lt_api_port"

def ofKey? (key : String) : Option Field :=
  if key = enabled.key then some .enabled
  else if key = hostname.key then some .hostname
  else if key = port.key then some .port
  else none

theorem ofKey?_key (field : Field) : ofKey? field.key = some field := by
  cases field <;> decide

end Field

inductive Cause where
  | endOfValue
  | endOfList
  | endOfObject
  | endOfString
  | expectedColon
  | expectedListCommaOrEnd
  | expectedObjectCommaOrEnd
  | expectedWord
  | expectedValue
  | invalidEscape
  | invalidNumber
  | numberOutOfRange
  | invalidCodePoint
  | controlCharacter
  | keyMustBeString
  | loneSurrogate
  | unfinishedPair
  | trailingComma
  | trailingCharacters
  | tooDeep
  | wrongType (found : Found) (wanted : Wanted)
  | duplicate (field : Field)
deriving DecidableEq

structure Fault where
  cause : Cause
  unread : Octets
  back : Nat
deriving DecidableEq

namespace Fault

/-- The fault shown where `unread` is left. -/
def leaving (cause : Cause) (unread : Octets) : Fault := ⟨cause, unread, 0⟩

/-- The place of a fault in the text that was read. -/
def position (fault : Fault) (input : Octets) : Position :=
  (Position.before input fault.unread).stepBack fault.back

end Fault

/-- The outcome of a reading that has to take something. -/
abbrev Reading (s : Octets) (α : Type) := Except Fault (Taken s α)

end JsonReport
