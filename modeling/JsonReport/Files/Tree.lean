import JsonReport.Text.Octets

/-!
# Files by path

A directory is a list of named files and directories.  A path is a list of names between slashes;
walking it, one dot stays and two dots go back, a name has at most 255 octets and a path at most
4095, and whatever is entered has to be a directory.  A path that ends in a slash enters what it
names.
-/

namespace JsonReport

inductive FileError where
  | notFound
  | isDirectory
  | notDirectory
  | nameTooLong
  | noSpace
  | zeroInPath
  | permissionDenied
  | other (message : String)
deriving DecidableEq, Repr

def FileError.message : FileError → String
  | .notFound => "No such file or directory (os error 2)"
  | .isDirectory => "Is a directory (os error 21)"
  | .notDirectory => "Not a directory (os error 20)"
  | .nameTooLong => "File name too long (os error 36)"
  | .noSpace => "No space left on device (os error 28)"
  | .zeroInPath => "file name contained an unexpected NUL byte"
  | .permissionDenied => "Permission denied (os error 13)"
  | .other message => message

inductive FileNode where
  | file (content : Octets)
  | directory (entries : List (Octets × FileNode))

abbrev Directory := List (Octets × FileNode)

namespace Directory

def find? (entries : Directory) (name : Octets) : Option FileNode :=
  (List.find? (fun entry => entry.1 == name) entries).map Prod.snd

/-- Puts an entry in place of one of the same name. -/
def set (entries : Directory) (name : Octets) (node : FileNode) : Directory :=
  (name, node) :: List.filter (fun entry => entry.1 != name) entries

/-- The entries of the directory of a name; a new one where there is none. -/
def below (entries : Directory) (name : Octets) : Directory :=
  match find? entries name with
  | some (.directory entries) => entries
  | _ => []

/-- Puts a file, making the directories on its path. -/
def putFile (entries : Directory) (content : Octets) : List Octets → Directory
  | [] => entries
  | [name] => set entries name (.file content)
  | name :: rest => set entries name (.directory (putFile (below entries name) content rest))

def putDirectory (entries : Directory) : List Octets → Directory
  | [] => entries
  | name :: rest => set entries name (.directory (putDirectory (below entries name) rest))

end Directory

namespace Path

def longestName : Nat := 255

def longestPath : Nat := 4095

/-- The parts between slashes, empty ones included. -/
def split (path : Octets) : List Octets :=
  match path with
  | [] => [[]]
  | b :: r =>
    if b = ascii '/' then [] :: split r
    else
      match split r with
      | [] => [[b]]
      | part :: parts => (b :: part) :: parts

/-- The names of a path.  A slash at the end counts as one more dot. -/
def names (path : Octets) : List Octets :=
  let parts := (split path).filter fun part => !part.isEmpty
  if path.getLast? = some (ascii '/') then parts ++ [[ascii '.']] else parts

/-- Walks from the innermost of a run of open directories; outside the outermost one there is an
empty one. -/
def walk (opened : List Directory) (node : FileNode) : List Octets → Except FileError Octets
  | [] =>
    match node with
    | .file content => .ok content
    | .directory _ => .error .isDirectory
  | name :: names =>
    match node with
    | .file _ => .error .notDirectory
    | .directory entries =>
      if name = [ascii '.'] then walk opened node names
      else if name = [ascii '.', ascii '.'] then
        match opened with
        | [] => walk [] (.directory []) names
        | outer :: opened => walk opened (.directory outer) names
      else if longestName < name.length then .error .nameTooLong
      else
        match Directory.find? entries name with
        | none => .error .notFound
        | some inner => walk (entries :: opened) inner names

end Path

def Directory.read (entries : Directory) (path : Octets) : Except FileError Octets :=
  if path.contains 0 then .error .zeroInPath
  else if path.isEmpty then .error .notFound
  else if Path.longestPath < path.length then .error .nameTooLong
  else if path.head? = some (ascii '/') then Path.walk [] (.directory []) (Path.names path)
  else Path.walk [] (.directory entries) (Path.names path)

end JsonReport
