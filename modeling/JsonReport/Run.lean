import JsonReport.CommandLine.Arguments
import JsonReport.CommandLine.Help
import JsonReport.Decoding
import JsonReport.Failure.Text
import JsonReport.Files.Tree
import JsonReport.Log.Line
import JsonReport.Report.Layout

/-!
# A whole run

A run decodes the document that the arguments name and writes one report: the value, or the line of
a decode failure.  Any other failure leaves nothing on the standard output; it is shown on the
standard error, behind the log, and decides the exit code.
-/

namespace JsonReport

structure Surroundings where
  stdoutTerminal : Bool
  stdoutError : Option FileError
  stderrTerminal : Bool
  directive : Log.Directive
  stamp : String
deriving DecidableEq, Repr

structure Outcome where
  exitCode : Nat
  stdout : String
  stderr : String
deriving DecidableEq, Repr

namespace Failure

def ofFile (what : String) (path : Octets) (error : FileError) : Failure :=
  (((Failure.ofKind .inputOutput).withMessage ("failed to read " ++ what)).withPath path).withCause
    (.text error.message)

def ofOutput (what : String) (error : FileError) : Failure :=
  ((Failure.ofKind .inputOutput).withMessage ("failed to write " ++ what)).withCause
    (.text error.message)

def ofUsage (error : UsageError) : Failure :=
  ((Failure.ofKind .usage).withMessage error.summary).withHint Help.hint

end Failure

/-- The settings that a file holds; a failure names the file. -/
def Settings.ofFile (path : Octets) (content : Except FileError Octets) : Except Failure Settings :=
  match content with
  | .error error => .error (.ofFile "config file" path error)
  | .ok octets => (Settings.ofOctets octets).mapError (·.withPath path)

def decodeFile (path : Octets) (content : Except FileError Octets) : Except Failure Json :=
  match content with
  | .error error => .error (.ofFile "input file" path error)
  | .ok octets => decodeOctets octets

namespace Options

def target (options : Options) : Target := if options.typed then .settings else .value

def rendering (options : Options) (terminal : Bool) : RenderOptions :=
  let colored := options.color.useColor terminal
  ⟨!options.compact && (terminal || colored), colored⟩

/-- Decodes the document that the options name, a named file having this content. -/
def decode (options : Options) (content : Except FileError Octets) : Except Failure Json :=
  match options.file, options.typed with
  | some path, true => (Settings.ofFile path content).map Settings.toJson
  | some path, false => decodeFile path content
  | none, true => (Settings.ofText builtInPayload).map Settings.toJson
  | none, false => decodeText builtInPayload

end Options

namespace Log

def quotedField (name text : String) : Field := ⟨name, "\"" ++ text ++ "\""⟩

def faultOf (target : Target) (origin : Origin) (input : Octets) : Option Fault :=
  let ofOutcome {α : Type} : Except Fault α → Option Fault
    | .error fault => some fault
    | .ok _ => none
  match target with
  | .value => ofOutcome (readDocument origin input)
  | .settings => ofOutcome (Settings.readDocument origin input)

def decodingLines (target : Target) (origin : Origin) (input : Octets) : List Line :=
  let line (message : String) (field : Field) : Line :=
    ⟨"ltjson::decode", .debug, message, [quotedField "context" target.context, field]⟩
  let message :=
    match origin with
    | .text => "decoding json"
    | .raw => "decoding json bytes"
  line message ⟨"len", Nat.repr input.length⟩ ::
    match faultOf target origin input with
    | none => []
    | some fault =>
      [line "json decode failed" (quotedField "category" (Category.ofFault fault input).label)]

def linesOf (options : Options) (content : Except FileError Octets) : List Line :=
  let opening (message : String) (fields : List Field) : Line := ⟨"ltjson", .info, message, fields⟩
  match options.file with
  | none =>
    opening (if options.typed then "decoding built-in settings" else "decoding built-in payload")
      [] :: decodingLines options.target .text (Utf8.encode builtInPayload)
  | some path =>
    opening (if options.typed then "decoding settings file" else "decoding file")
      [⟨"path", Utf8.display path⟩] ::
      match content with
      | .error _ => []
      | .ok octets => decodingLines options.target .raw octets

/-- The log of a run as far as it is shown. -/
def textOf (surroundings : Surroundings) (lines : List Line) : String :=
  String.join ((lines.filter surroundings.directive.shows).map
    (·.render surroundings.stamp surroundings.stderrTerminal))

end Log

/-- What a failure leaves behind, after what has been logged. -/
def Outcome.ofFailure (surroundings : Surroundings) (mode : ColorMode) (logged : String)
    (failure : Failure) : Outcome :=
  ⟨failure.kind.exitCode, "",
    logged ++ failure.text (mode.useColor surroundings.stderrTerminal) ++ "\n"⟩

/-- Writes `text`, which a failure calls `what`, to the standard output. -/
def Outcome.ofOutput (surroundings : Surroundings) (mode : ColorMode) (logged what text : String) :
    Outcome :=
  match surroundings.stdoutError with
  | none => ⟨0, text, logged⟩
  | some error => .ofFailure surroundings mode logged (.ofOutput what error)

namespace Options

/-- A run with these options, a named file having this content. -/
def run (options : Options) (content : Except FileError Octets) (surroundings : Surroundings) :
    Outcome :=
  let logged := Log.textOf surroundings (Log.linesOf options content)
  let rendering := options.rendering surroundings.stdoutTerminal
  match options.decode content with
  | .ok value =>
    .ofOutput surroundings options.color logged "stdout" (value.report rendering)
  | .error failure =>
    -- That a document cannot be decoded is an answer, and goes where a value would.
    if failure.kind = .decode then
      .ofOutput surroundings options.color logged "stdout" (failure.report rendering.colored)
    else .ofFailure surroundings options.color logged failure

end Options

/-- What the reading of the arguments leaves behind where it ends early. -/
def Stop.run (stop : Stop) (surroundings : Surroundings) : Outcome :=
  match stop with
  | .help => .ofOutput surroundings .auto "" "help" Help.text
  | .version => .ofOutput surroundings .auto "" "help" Help.version
  | .usage error => .ofFailure surroundings .auto "" (.ofUsage error)

/-- A run with these arguments; `read` yields the content of a file. -/
def run (arguments : List Octets) (read : Octets → Except FileError Octets)
    (surroundings : Surroundings) : Outcome :=
  match Arguments.read arguments with
  | .error stop => stop.run surroundings
  | .ok options => options.run (read (options.file.getD [])) surroundings

end JsonReport
