import JsonReport.CommandLine.Usage
import JsonReport.Text.Utf8

/-!
# Reading the arguments

Arguments are taken from left to right.  A value that stands apart, of an option or of the file, is
held back and judged when the next argument is recognised or the arguments end; an argument that
makes no sense by itself is refused at once, and what was held back is then not judged.  Asking for
help or the version ends the reading where it stands.
-/

namespace JsonReport

inductive ColorMode where
  | auto
  | always
  | never
deriving DecidableEq, Repr

namespace ColorMode

def useColor (mode : ColorMode) (terminal : Bool) : Bool :=
  match mode with
  | .auto => terminal
  | .always => true
  | .never => false

def name : ColorMode → String
  | .auto => "auto"
  | .always => "always"
  | .never => "never"

def ofName? (name : Octets) : Option ColorMode :=
  [auto, always, never].find? fun mode => Utf8.encode mode.name = name

end ColorMode

structure Options where
  file : Option Octets
  typed : Bool
  compact : Bool
  color : ColorMode
deriving DecidableEq, Repr

inductive Stop where
  | help
  | version
  | usage (error : UsageError)
deriving DecidableEq, Repr

namespace Arguments

/-- A value that has been held back, or that is still to come. -/
inductive Pending where
  | color (value : Option Octets)
  | file (value : Octets)
deriving DecidableEq, Repr

structure Progress where
  file : Option Octets
  typed : Bool
  compact : Bool
  color : Option ColorMode
  pending : Option Pending
  fileGiven : Bool
deriving DecidableEq, Repr

def Progress.start : Progress := ⟨none, false, false, none, none, false⟩

def Progress.options (progress : Progress) : Options :=
  ⟨progress.file, progress.typed, progress.compact, progress.color.getD .auto⟩

def shownText (value : Octets) : String := String.ofList (Plain.shown (Utf8.decodeLossy value))

def refuse {α : Type} (error : UsageError) : Except Stop α := .error (.usage error)

def setColor (progress : Progress) (value : Octets) : Except Stop Progress :=
  if progress.color.isSome then refuse (.repeated .color)
  else if value.isEmpty then refuse (.missingValue .color)
  else
    match ColorMode.ofName? value with
    | some mode => .ok { progress with color := some mode }
    | none => refuse (.invalidValue .color (shownText value))

/-- Judges the value that was held back. -/
def resolve (progress : Progress) : Except Stop Progress :=
  let settled := { progress with pending := none }
  match progress.pending with
  | none => .ok progress
  | some (.color none) => refuse (.missingValue .color)
  | some (.color (some value)) => setColor settled value
  | some (.file value) =>
    if value.isEmpty then refuse (.missingValue .file)
    else .ok { settled with file := some value }

def longNames : List (String × Argument) :=
  [("typed", .typed), ("compact", .compact), ("color", .color), ("help", .help),
   ("version", .version)]

def ofLongName? (name : Octets) : Option Argument :=
  (longNames.find? fun entry => Utf8.encode entry.1 = name).map Prod.snd

def takeBare (progress : Progress) (argument : Argument) : Except Stop Progress :=
  match resolve progress with
  | .error stop => .error stop
  | .ok progress =>
    match argument with
    | .help => .error .help
    | .version => .error .version
    | .color => .ok { progress with pending := some (.color none) }
    | .typed =>
      if progress.typed then refuse (.repeated .typed) else .ok { progress with typed := true }
    | .compact =>
      if progress.compact then refuse (.repeated .compact)
      else .ok { progress with compact := true }
    | .file => .ok progress

def takeAttached (progress : Progress) (argument : Argument) (value : Octets) :
    Except Stop Progress :=
  match argument with
  | .color =>
    match resolve progress with
    | .error stop => .error stop
    | .ok progress => setColor progress value
  -- This is refused before what was held back is judged.
  | argument => refuse (.unexpectedValue argument (shownText value))

def takeLong (progress : Progress) (text : Octets) : Except Stop Progress :=
  let name := text.takeWhile (· ≠ ascii '=')
  match ofLongName? name, text.drop name.length with
  | none, _ => refuse (.unexpectedArgument ("--" ++ shownText name))
  | some argument, [] => takeBare progress argument
  | some argument, _ :: value => takeAttached progress argument value

/-- The first letter of a group of short arguments as it is shown, or all of the group when it does
not begin with a character. -/
def firstShort (text : Octets) : String :=
  match text with
  | [] => ""
  | b :: rest =>
    match Utf8.step b rest with
    | .character code _ => String.ofList (Plain.shown [Char.ofNat code])
    | .broken _ _ => shownText text

/-- Takes a group of short arguments, after its dash.  Both short arguments end the reading, so
that the first letter decides. -/
def takeShort (progress : Progress) (text : Octets) : Except Stop Progress :=
  if text.head? = some (ascii 'h') then takeBare progress .help
  else if text.head? = some (ascii 'V') then takeBare progress .version
  else refuse (.unexpectedArgument ("-" ++ firstShort text))

def takeFile (progress : Progress) (value : Octets) : Except Stop Progress :=
  if progress.fileGiven then refuse (.unexpectedArgument (shownText value))
  else
    match resolve progress with
    | .error stop => .error stop
    | .ok progress => .ok { progress with pending := some (.file value), fileGiven := true }

def takeValue (progress : Progress) (value : Octets) : Except Stop Progress :=
  if progress.pending = some (.color none) then
    .ok { progress with pending := some (.color (some value)) }
  else takeFile progress value

/-- Reads the arguments; after a bare double dash all of them are files. -/
def readFrom (progress : Progress) (onlyFiles : Bool) : List Octets → Except Stop Progress
  | [] => resolve progress
  | argument :: rest =>
    let dash := ascii '-'
    if onlyFiles then
      match takeFile progress argument with
      | .error stop => .error stop
      | .ok progress => readFrom progress true rest
    else if argument = [dash, dash] then readFrom progress true rest
    else
      let taken :=
        match argument with
        | first :: second :: text =>
          if first ≠ dash then takeValue progress argument
          else if second = dash then takeLong progress text
          else takeShort progress (second :: text)
        | _ => takeValue progress argument
      match taken with
      | .error stop => .error stop
      | .ok progress => readFrom progress false rest

def read (arguments : List Octets) : Except Stop Options :=
  (readFrom .start false arguments).map Progress.options

end Arguments

end JsonReport
