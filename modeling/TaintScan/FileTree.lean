import TaintScan.Files

namespace TaintScan

abbrev Place := List (List UInt8)

inductive FileEntry
  | directory (place : Place)
  | text (content : String)
deriving DecidableEq

/-- Directories and texts. The root is a directory; paths that do not begin at the root begin at the
working directory. -/
structure FileTree where
  working : Place
  directories : List Place
  texts : List (Place × String)

namespace FileTree

def bare : FileTree := ⟨[], [], []⟩

def isDirectory (t : FileTree) (p : Place) : Bool := p.isEmpty || t.directories.contains p

def start (t : FileTree) (path : FilePath) : Place := if path.isAbsolute then [] else t.working

def place (t : FileTree) (path : FilePath) : Place := t.start path ++ path.names

def addDirectory (t : FileTree) (path : FilePath) : FileTree :=
  { t with directories := t.place path :: t.directories }

def write (t : FileTree) (path : FilePath) (text : String) : FileTree :=
  { t with texts := (t.place path, text) :: t.texts }

def remove (t : FileTree) (path : FilePath) : FileTree :=
  { t with texts := t.texts.filter fun e => e.1 != t.place path }

def nameLimit : Nat := 255

def pathLimit : Nat := 4095

def walk (t : FileTree) (p : Place) : List (List UInt8) → Except FileFault FileEntry
  | [] => .ok (.directory p)
  | name :: rest =>
    if name.isEmpty || name == [FilePath.dot] then t.walk p rest
    else if name == [FilePath.dot, FilePath.dot] then t.walk p.dropLast rest
    else if nameLimit < name.length then .error .nameTooLong
    else if t.isDirectory (p ++ [name]) then t.walk (p ++ [name]) rest
    else
      match t.texts.lookup (p ++ [name]) with
      | none => .error .notFound
      | some text => if rest.isEmpty then .ok (.text text) else .error .notDirectory

def find (t : FileTree) (path : FilePath) : Except FileFault FileEntry :=
  if path.bytes.contains 0 then .error .nulInName
  else if path.bytes.isEmpty then .error .notFound
  else if pathLimit < path.bytes.length then .error .nameTooLong
  else t.walk (t.start path) path.pieces

def files (t : FileTree) : Files := fun path =>
  match t.find path with
  | .ok (.text content) => .ok content
  | .ok (.directory _) => .error .isDirectory
  | .error fault => .error fault

end FileTree

end TaintScan
