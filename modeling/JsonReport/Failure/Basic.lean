import JsonReport.Text.Position
import JsonReport.Text.Utf8

/-!
# Failures

A failure has a kind, which decides the exit code, and whatever is known about it.  It starts from
its kind alone and gains one detail at a time; a detail given again replaces the earlier one.  A
place counts only if its line is known, so a line is never zero and never stands without a column.
-/

namespace JsonReport

inductive FailureKind where
  | internal
  | usage
  | decode
  | inputOutput
deriving DecidableEq, Repr

namespace FailureKind

def name : FailureKind → String
  | .internal => "Internal"
  | .usage => "Usage"
  | .decode => "Decode"
  | .inputOutput => "Io"

/-- The exit code of a kind.  A decode failure is reported as the answer, so its code is that of
success. -/
def exitCode : FailureKind → Nat
  | .decode => 0
  | .internal => 1
  | .usage => 2
  | .inputOutput => 8

def defaultMessage : FailureKind → String
  | .internal => "internal error"
  | .usage => "usage error"
  | .decode => "invalid JSON"
  | .inputOutput => "i/o error"

end FailureKind

inductive FailureCause (Inner : Type) where
  | text (text : String)
  | failure (inner : Inner)

structure Failure where
  kind : FailureKind
  message : Option String
  hint : Option String
  path : Option Octets
  position : Option Position
  cause : Option (FailureCause Failure)

namespace Failure

def ofKind (kind : FailureKind) : Failure := ⟨kind, none, none, none, none, none⟩

def withMessage (failure : Failure) (message : String) : Failure :=
  { failure with message := some message }

def withHint (failure : Failure) (hint : String) : Failure :=
  { failure with hint := some hint }

def withPath (failure : Failure) (path : Octets) : Failure :=
  { failure with path := some path }

/-- States the place, unless its line is zero, which stands for an unknown one. -/
def withPosition (failure : Failure) (line column : Nat) : Failure :=
  if 0 < line then { failure with position := some ⟨line, column⟩ } else failure

def withCause (failure : Failure) (cause : FailureCause Failure) : Failure :=
  { failure with cause := some cause }

def line? (failure : Failure) : Option Nat := failure.position.map Position.line

def column? (failure : Failure) : Option Nat := failure.position.map Position.column

/-- A failure in one phrase: its kind, its message and its path. -/
def summary (failure : Failure) : String :=
  failure.kind.name ++
    (match failure.message with
    | some message => ": " ++ message
    | none => "") ++
    (match failure.path with
    | some path => " (path: " ++ Utf8.display path ++ ")"
    | none => "")

def causeText? (failure : Failure) : Option String :=
  failure.cause.map fun
    | .text text => text
    | .failure inner => inner.summary

inductive Detail where
  | message (text : String)
  | hint (text : String)
  | path (path : Octets)
  | position (line column : Nat)
  | cause (cause : FailureCause Failure)

def give (failure : Failure) : Detail → Failure
  | .message text => failure.withMessage text
  | .hint text => failure.withHint text
  | .path path => failure.withPath path
  | .position line column => failure.withPosition line column
  | .cause cause => failure.withCause cause

end Failure

end JsonReport
