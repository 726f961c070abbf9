import JsonReport.Json.Quoted
import JsonReport.Json.Value
import JsonReport.Report.Paint

/-!
# Laying out a value

A value is laid out on one line without blanks, or with each item on a line of its own, indented by
two spaces for every container around it, and a space between a key's colon and its value.  An
empty container is one token in both layouts.
-/

namespace JsonReport

structure RenderOptions where
  pretty : Bool
  colored : Bool
deriving DecidableEq, Repr

namespace Report

def mark (text : List Char) : Piece := .token .punctuation text

/-- The layout that begins a line at this depth. -/
def lineBreak (pretty : Bool) (depth : Nat) : List Piece :=
  if pretty then [.layout ('\n' :: List.replicate (2 * depth) ' ')] else []

def keyPieces (pretty : Bool) (key : String) : List Piece :=
  .token .key (Quoted.quote key.toList) :: mark [':'] ::
    (if pretty then [.layout [' ']] else [])

mutual

/-- The pieces of a value inside `depth` containers. -/
def pieces (pretty : Bool) (depth : Nat) : Json → List Piece
  | .null => [.token .null ['n', 'u', 'l', 'l']]
  | .bool true => [.token .bool ['t', 'r', 'u', 'e']]
  | .bool false => [.token .bool ['f', 'a', 'l', 's', 'e']]
  | .number n => [.token .number n.text]
  | .string text => [.token .string (Quoted.quote text.toList)]
  | .array [] => [mark ['[', ']']]
  | .array (item :: items) =>
    mark ['['] :: (lineBreak pretty (depth + 1) ++ pieces pretty (depth + 1) item ++
      elementPieces pretty (depth + 1) items ++ lineBreak pretty depth ++ [mark [']']])
  | .object [] => [mark ['\x7b', '\x7d']]
  | .object ((key, value) :: members) =>
    mark ['\x7b'] :: (lineBreak pretty (depth + 1) ++ keyPieces pretty key ++
      pieces pretty (depth + 1) value ++ memberPieces pretty (depth + 1) members ++
      lineBreak pretty depth ++ [mark ['\x7d']])

/-- The pieces of the elements after the first one. -/
def elementPieces (pretty : Bool) (depth : Nat) : List Json → List Piece
  | [] => []
  | item :: items =>
    mark [','] :: (lineBreak pretty depth ++ pieces pretty depth item ++
      elementPieces pretty depth items)

def memberPieces (pretty : Bool) (depth : Nat) : List (String × Json) → List Piece
  | [] => []
  | (key, value) :: members =>
    mark [','] :: (lineBreak pretty depth ++ keyPieces pretty key ++ pieces pretty depth value ++
      memberPieces pretty depth members)

end

end Report

def Json.render (value : Json) (options : RenderOptions) : String :=
  String.ofList ((Report.pieces options.pretty 0 value).flatMap (Piece.render options.colored))

def Json.report (value : Json) (options : RenderOptions) : String :=
  value.render options ++ "\n"

end JsonReport
