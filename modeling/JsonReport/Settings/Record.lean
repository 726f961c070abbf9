import JsonReport.Json.Value
import JsonReport.Json.Fault

/-!
# The settings record

Three settings of a client, each with a default.  While a record is being read, a setting that has
not come yet is absent; what is still absent at the end takes its default.
-/

namespace JsonReport

structure Settings where
  enabled : Bool
  hostname : String
  port : String
deriving DecidableEq, Repr

namespace Settings

def default : Settings := ⟨true, "http://127.0.0.1", "8081"⟩

/-- The settings as an object, in the order of the record. -/
def toJson (settings : Settings) : Json :=
  .object
    [(Field.enabled.key, .bool settings.enabled),
     (Field.hostname.key, .string settings.hostname),
     (Field.port.key, .string settings.port)]

structure Draft where
  enabled : Option Bool
  hostname : Option String
  port : Option String
deriving DecidableEq, Repr

namespace Draft

def empty : Draft := ⟨none, none, none⟩

def has (draft : Draft) : Field → Bool
  | .enabled => draft.enabled.isSome
  | .hostname => draft.hostname.isSome
  | .port => draft.port.isSome

/-- The record, with defaults for what is not known. -/
def complete (draft : Draft) : Settings :=
  ⟨draft.enabled.getD default.enabled, draft.hostname.getD default.hostname,
    draft.port.getD default.port⟩

end Draft

end Settings

end JsonReport
