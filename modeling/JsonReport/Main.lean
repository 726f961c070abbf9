import JsonReport.Log.Timestamp
import JsonReport.Run

/-!
# The program

Reads the file that the arguments name, lets the run decide everything else, and writes what the
run leaves behind.  Whether the output can be written shows only when it is, so a run whose output
could not be written is decided a second time with that known.
-/

namespace JsonReport.Main

def fileError : IO.Error → FileError
  | .noFileOrDirectory .. => .notFound
  | .inappropriateType _ 21 _ => .isDirectory
  | .inappropriateType .. => .notDirectory
  | .invalidArgument _ 22 _ => .zeroInPath
  | .invalidArgument .. => .nameTooLong
  | .resourceExhausted .. => .noSpace
  | .permissionDenied .. => .permissionDenied
  | error => .other (toString error)

def contentOf (path : Octets) : IO (Except FileError Octets) := do
  try
    return .ok (← IO.FS.readBinFile (Utf8.display path)).toList
  catch error => return .error (fileError error)

def namedContent (arguments : List Octets) : IO (Except FileError Octets) :=
  match Arguments.read arguments with
  | .ok ⟨some path, _, _, _⟩ => contentOf path
  | _ => return .error .notFound

/-- Writes a text and says why it cannot, if so. -/
def write (stream : IO.FS.Stream) (text : String) : IO (Option FileError) := do
  try
    stream.putStr text
    stream.flush
    return none
  catch error => return some (fileError error)

/-- The stamp of the moment at which the system last looked at this process. -/
def stamp : IO String := do
  try
    let seen := (← ((← IO.currentDir) / "/proc/self").metadata).modified
    return Timestamp.text seen.sec.toNat seen.nsec.toNat
  catch _ => return Timestamp.text 0 0

def execute (arguments : List Octets) : IO UInt32 := do
  let stdout ← IO.getStdout
  let stderr ← IO.getStderr
  let directive := ((← IO.getEnv "RUST_LOG").map Log.Directive.ofText).getD .default
  let surroundings : Surroundings :=
    ⟨← stdout.isTty, none, ← stderr.isTty, directive, ← stamp⟩
  let content ← namedContent arguments
  let planned := run arguments (fun _ => content) surroundings
  let stdoutError ← if planned.stdout.isEmpty then pure none else write stdout planned.stdout
  let outcome := run arguments (fun _ => content) { surroundings with stdoutError := stdoutError }
  let _ ← write stderr outcome.stderr
  return outcome.exitCode.toUInt32

end JsonReport.Main

def main (arguments : List String) : IO UInt32 :=
  JsonReport.Main.execute (arguments.map JsonReport.Utf8.encode)
