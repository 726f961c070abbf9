import JsonReport.Failure.Basic
import JsonReport.Failure.Category
import JsonReport.Settings.Reader

/-!
# Decoding

A document is decoded from a text or from raw octets, into the value that it holds or into the
settings record.  A fault becomes a failure of kind decode that carries the message of the fault,
once as its own and once as its cause, the place, and a hint with the category and the caller.
-/

namespace JsonReport

inductive Target where
  | value
  | settings
deriving DecidableEq, Repr

def Target.context : Target → String
  | .value => "decode"
  | .settings => "config"

namespace Failure

def ofFault (target : Target) (input : Octets) (fault : Fault) : Failure :=
  let message := fault.message input
  let place := fault.position input
  (((Failure.ofKind .decode).withMessage message).withHint
    ((Category.ofFault fault input).hint target.context)).withPosition place.line place.column
    |>.withCause (.text message)

end Failure

/-- The outcome of a reading, its fault made a failure. -/
def decodeWith {α : Type} (target : Target) (read : Octets → Except Fault α) (input : Octets) :
    Except Failure α :=
  (read input).mapError (Failure.ofFault target input)

def decodeText (text : String) : Except Failure Json :=
  decodeWith .value (readDocument .text) (Utf8.encode text)

def decodeOctets (input : Octets) : Except Failure Json :=
  decodeWith .value (readDocument .raw) input

namespace Settings

def readDocument (origin : Origin) (s : Octets) : Except Fault Settings :=
  readWhole (Settings.read origin) s

def ofText (text : String) : Except Failure Settings :=
  decodeWith .settings (readDocument .text) (Utf8.encode text)

def ofOctets (input : Octets) : Except Failure Settings :=
  decodeWith .settings (readDocument .raw) input

end Settings

/-- The document that is decoded where no other is named. -/
def builtInPayload : String :=
  "\n\x7b\n    \"lt_enabled\": true, \n    \"lt_api_hostname\": \"http://127.0.0.1\", \n" ++
    "    \"lt_api_port\": \"8081\" \n\x7d\n"

end JsonReport
