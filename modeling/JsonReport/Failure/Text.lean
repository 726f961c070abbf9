import JsonReport.Failure.Basic
import JsonReport.Report.Paint

/-!
# Showing a failure

A decode failure is reported on one line, where a value would have stood.  Every other failure is
shown as a block of labelled lines, the details in a fixed order and those that are not known left
out.
-/

namespace JsonReport.Failure

def decodeLabel : String := "Error decoding JSON:"

def errorLine (failure : Failure) (colored : Bool) : String :=
  paintLabel decodeLabel colored .red ++ " " ++
    failure.message.getD FailureKind.decode.defaultMessage

def report (failure : Failure) (colored : Bool) : String :=
  failure.errorLine colored ++ "\n"

def detailLine (colored : Bool) (colour : Colour) (label : String) (text : String) : String :=
  paintLabel label colored colour ++ " " ++ text

def lines (failure : Failure) (colored : Bool) : List String :=
  detailLine colored .red "error:" (failure.message.getD failure.kind.defaultMessage) ::
    ((failure.hint.map (detailLine colored .yellow "hint:")).toList ++
      (failure.path.map (detailLine colored .yellow "path:" ∘ Utf8.display)).toList ++
      (failure.causeText?.map (detailLine colored .yellow "caused by:")).toList)

def text (failure : Failure) (colored : Bool) : String :=
  String.intercalate "\n" (failure.lines colored)

end JsonReport.Failure
