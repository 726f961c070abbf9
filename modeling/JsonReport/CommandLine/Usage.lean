import JsonReport.Text.Blank
import JsonReport.Text.Plain

/-!
# Usage errors

What can be wrong with the arguments, and how it is told: only the first line of a message is
shown, without terminal controls, without blanks at its ends and without the word that would
introduce it.
-/

namespace JsonReport

inductive Argument where
  | file
  | typed
  | compact
  | color
  | help
  | version
deriving DecidableEq, Repr

def Argument.shown : Argument → String
  | .file => "[FILE]"
  | .typed => "--typed"
  | .compact => "--compact"
  | .color => "--color <COLOR>"
  | .help => "--help"
  | .version => "--version"

inductive UsageError where
  | unexpectedArgument (shown : String)
  | missingValue (argument : Argument)
  | invalidValue (argument : Argument) (value : String)
  | repeated (argument : Argument)
  | unexpectedValue (argument : Argument) (value : String)
deriving DecidableEq, Repr

namespace UsageError

def message : UsageError → String
  | .unexpectedArgument shown => "unexpected argument '" ++ shown ++ "' found"
  | .missingValue argument =>
    "a value is required for '" ++ argument.shown ++ "' but none was supplied"
  | .invalidValue argument value => "invalid value '" ++ value ++ "' for '" ++ argument.shown ++ "'"
  | .repeated argument => "the argument '" ++ argument.shown ++ "' cannot be used multiple times"
  | .unexpectedValue argument value =>
    "unexpected value '" ++ value ++ "' for '" ++ argument.shown ++
      "' found; no more were expected"

def introduction : List Char := ['e', 'r', 'r', 'o', 'r', ':', ' ']

/-- A line without its introduction, however often it is repeated. -/
def dropIntroductions (line : List Char) : List Char :=
  match line with
  | 'e' :: 'r' :: 'r' :: 'o' :: 'r' :: ':' :: ' ' :: rest => dropIntroductions rest
  | line => line

/-- The one line that is shown of a message. -/
def summaryOf (message : String) : String :=
  let line := (introduction ++ Plain.shown message.toList).takeWhile (· ≠ '\n')
  String.ofList (dropIntroductions (Blank.trim line))

def summary (usage : UsageError) : String := summaryOf usage.message

end UsageError

end JsonReport
