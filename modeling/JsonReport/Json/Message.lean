import JsonReport.Json.Fault
import JsonReport.Text.Escaped

/-!
# What a fault says

Each cause has its wording, and a fault adds its place.  Only a value of the wrong kind is quoted:
numbers and booleans as they would be written, strings with their escapes, containers by name.
-/

namespace JsonReport

def Found.message : Found → String
  | .bool flag => "boolean `" ++ (if flag then "true" else "false") ++ "`"
  | .number (.whole n) => "integer `" ++ String.ofList n.text ++ "`"
  | .number (.double x) => "floating point `" ++ String.ofList x.text ++ "`"
  | .null => "null"
  | .string text => "string " ++ String.ofList (Escaped.quote text.toList)
  | .sequence => "sequence"
  | .map => "map"

def Wanted.message : Wanted → String
  | .boolean => "a boolean"
  | .string => "a string"
  | .record => "struct RootConfig"

def Cause.message : Cause → String
  | .endOfValue => "EOF while parsing a value"
  | .endOfList => "EOF while parsing a list"
  | .endOfObject => "EOF while parsing an object"
  | .endOfString => "EOF while parsing a string"
  | .expectedColon => "expected `:`"
  | .expectedListCommaOrEnd => "expected `,` or `]`"
  | .expectedObjectCommaOrEnd => "expected `,` or `\x7d`"
  | .expectedWord => "expected ident"
  | .expectedValue => "expected value"
  | .invalidEscape => "invalid escape"
  | .invalidNumber => "invalid number"
  | .numberOutOfRange => "number out of range"
  | .invalidCodePoint => "invalid unicode code point"
  | .controlCharacter => "control character (\\u0000-\\u001F) found while parsing a string"
  | .keyMustBeString => "key must be a string"
  | .loneSurrogate => "lone leading surrogate in hex escape"
  | .unfinishedPair => "unexpected end of hex escape"
  | .trailingComma => "trailing comma"
  | .trailingCharacters => "trailing characters"
  | .tooDeep => "recursion limit exceeded"
  | .wrongType found wanted =>
    "invalid type: " ++ found.message ++ ", expected " ++ wanted.message
  | .duplicate field => "duplicate field `" ++ field.key ++ "`"

def Position.message (place : Position) : String :=
  " at line " ++ Nat.repr place.line ++ " column " ++ Nat.repr place.column

def Fault.message (fault : Fault) (input : Octets) : String :=
  fault.cause.message ++ (fault.position input).message

end JsonReport
