/-!
# Painted text

A report is a run of pieces: tokens, which have a role and may be painted in the colour of that
role, and the layout between them, which is never painted.  Paint is put around a token and taken
off right after it.
-/

namespace JsonReport

inductive Colour where
  | red
  | green
  | yellow
  | magenta
  | cyan
  | default
deriving DecidableEq, Repr

def Colour.code : Colour → List Char
  | .red => ['3', '1']
  | .green => ['3', '2']
  | .yellow => ['3', '3']
  | .magenta => ['3', '5']
  | .cyan => ['3', '6']
  | .default => ['3', '9']

def escapeSequence (code : List Char) : List Char := '\x1b' :: '[' :: (code ++ ['m'])

/-- Text between a sequence that selects a colour and the one that ends it. -/
def Colour.paint (colour : Colour) (text : List Char) : List Char :=
  escapeSequence colour.code ++ text ++ escapeSequence ['0']

def paintLabel (label : String) (enabled : Bool) (colour : Colour) : String :=
  if enabled then String.ofList (colour.paint label.toList) else label

inductive Role where
  | key
  | string
  | number
  | bool
  | null
  | punctuation
deriving DecidableEq, Repr

def Role.colour : Role → Colour
  | .key => .cyan
  | .string => .green
  | .number => .yellow
  | .bool => .magenta
  | .null => .default
  | .punctuation => .default

inductive Piece where
  | token (role : Role) (text : List Char)
  | layout (text : List Char)
deriving DecidableEq, Repr

def Piece.render (colored : Bool) : Piece → List Char
  | .token role text => if colored then role.colour.paint text else text
  | .layout text => text

end JsonReport
