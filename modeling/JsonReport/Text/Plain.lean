/-!
# Text without terminal controls

A terminal does not show every character.  An escape begins a sequence: most sequences run to their
final character, and white space breaks them off; some open a string, which swallows white space
too.  A command string runs to a bell.  A device string has parameters of its own and then data,
and data runs to the octet `9C`, even where that octet is only a part of a character.  A new escape,
a cancel and a substitute end everything.  Outside, the controls other than white space are dropped.
-/

namespace JsonReport.Plain

inductive State where
  | shown
  | escape
  | escapeIntermediate
  | control
  | command
  | deviceEntry
  | deviceParameters
  | deviceIntermediate
  | data
deriving DecidableEq, Repr

/-- The white space that a terminal acts on. -/
def isLayout (c : Char) : Bool := c = '\t' || c = '\n' || c = '\x0c' || c = '\r'

/-- The controls, and what lies beyond ASCII: they change nothing within a sequence. -/
def isOutside (c : Char) : Bool := c.toNat < 0x20 || 0x7F ≤ c.toNat

/-- The characters that collect between parameters and a final character. -/
def isIntermediate (c : Char) : Bool := 0x20 ≤ c.toNat && c.toNat < 0x30

def isParameter (c : Char) : Bool := 0x30 ≤ c.toNat && c.toNat < 0x40

/-- The parameters that may only stand first. -/
def isPrivate (c : Char) : Bool := 0x3C ≤ c.toNat && c.toNat < 0x40

/-- The characters whose octets end a string of data. -/
def endsData (c : Char) : Bool := (String.utf8EncodeChar c).contains 0x9C

def afterEscape (c : Char) : State :=
  if isIntermediate c then .escapeIntermediate
  else if c = '[' then .control
  else if c = ']' then .command
  else if c = 'P' then .deviceEntry
  else if c = 'X' || c = '^' || c = '_' then .data
  else .shown

def withinSequence (state : State) (c : Char) : State :=
  match state with
  | .escape => afterEscape c
  | .escapeIntermediate => if isIntermediate c then .escapeIntermediate else .shown
  | .control => if isIntermediate c || isParameter c then .control else .shown
  | .deviceEntry =>
    if isIntermediate c then .deviceIntermediate
    else if isParameter c then .deviceParameters
    else .data
  | .deviceParameters =>
    if isIntermediate c then .deviceIntermediate
    else if isParameter c && !isPrivate c then .deviceParameters
    else .data
  | .deviceIntermediate => if isIntermediate c then .deviceIntermediate else .data
  | state => state

/-- The state after `c`, or nothing when `c` is shown. -/
def advance (state : State) (c : Char) : Option State :=
  if c = '\x1b' then some .escape
  else if c = '\x18' || c = '\x1a' then some .shown
  else
    match state with
    | .shown =>
      if isLayout c then none else if c.toNat < 0x20 || c = '\x7f' then some .shown else none
    | .escape | .escapeIntermediate | .control =>
      if isLayout c then none
      else if isOutside c then some state
      else some (withinSequence state c)
    | .deviceEntry | .deviceParameters | .deviceIntermediate =>
      if isOutside c then some state else some (withinSequence state c)
    | .command => some (if c = '\x07' then .shown else .command)
    | .data => some (if endsData c then .shown else .data)

def shownFrom (state : State) : List Char → List Char
  | [] => []
  | c :: text =>
    match advance state c with
    | some state => shownFrom state text
    | none => c :: shownFrom .shown text

def shown (text : List Char) : List Char := shownFrom .shown text

end JsonReport.Plain
