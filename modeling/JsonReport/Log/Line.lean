import JsonReport.Text.Octets
import JsonReport.Report.Paint

/-!
# Logs

A log line has a level and comes from a part of the program.  A directive says from which level on
the lines of a part are shown; without one only warnings and errors are, and a run has none.  On a
terminal the stamp is dimmed, the level is coloured and the names of fields are slanted.
-/

namespace JsonReport.Log

inductive Level where
  | info
  | debug
deriving DecidableEq, Repr

inductive Threshold where
  | off
  | error
  | warn
  | info
  | debug
  | trace
deriving DecidableEq, Repr

def Threshold.shows : Threshold → Level → Bool
  | .trace, _ | .debug, _ | .info, .info => true
  | _, _ => false

/-- The threshold of a lower-case word. -/
def Threshold.ofWord? (word : String) : Option Threshold :=
  ([("off", off), ("error", error), ("warn", warn), ("info", info), ("debug", debug),
    ("trace", trace), ("0", off), ("1", error), ("2", warn), ("3", info), ("4", debug),
    ("5", trace), ("", error)].find? fun entry => entry.1 = word).map Prod.snd

/-- A directive: the beginning of the names of the parts it is about, and what it shows of them. -/
structure Directive where
  part : List Char
  threshold : Threshold
deriving DecidableEq, Repr

def Directive.default : Directive := ⟨[], .warn⟩

/-- The directive that a text spells: a level, a part of which everything is shown, or a part and a
level. -/
def Directive.ofText (text : String) : Directive :=
  let part := text.toList.takeWhile (· ≠ '=')
  let word (level : List Char) := Threshold.ofWord? (String.ofList (level.map Char.toLower))
  match text.toList.drop part.length with
  | [] =>
    match word part with
    | some threshold => ⟨[], threshold⟩
    | none => ⟨part, .trace⟩
  | [_] => ⟨part, .trace⟩
  | _ :: level =>
    match word level with
    | some threshold => ⟨part, threshold⟩
    | none => default

structure Field where
  name : String
  text : String
deriving DecidableEq, Repr

structure Line where
  part : String
  level : Level
  message : String
  fields : List Field
deriving DecidableEq, Repr

def Directive.shows (directive : Directive) (line : Line) : Bool :=
  directive.part.isPrefixOf line.part.toList && directive.threshold.shows line.level

/-- The name of a level, five characters wide. -/
def Level.name : Level → String
  | .info => " INFO"
  | .debug => "DEBUG"

def Level.code : Level → List Char
  | .info => ['3', '2']
  | .debug => ['3', '4']

def styled (code : List Char) (enabled : Bool) (text : String) : String :=
  if enabled then
    String.ofList (escapeSequence code ++ text.toList ++ escapeSequence ['0'])
  else text

def Field.render (field : Field) (terminal : Bool) : String :=
  " " ++ styled ['3'] terminal field.name ++ styled ['2'] terminal "=" ++ field.text

def Line.render (line : Line) (stamp : String) (terminal : Bool) : String :=
  styled ['2'] terminal stamp ++ " " ++ styled line.level.code terminal line.level.name ++ " " ++
    line.message ++ String.join (line.fields.map (·.render terminal)) ++ "\n"

end JsonReport.Log
