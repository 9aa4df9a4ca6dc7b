import TaintScan.FilePath

namespace TaintScan

inductive FileFault
  | notFound
  | notDirectory
  | isDirectory
  | nameTooLong
  | nulInName
deriving DecidableEq

namespace FileFault

def message : FileFault → String
  | notFound => "No such file or directory (os error 2)"
  | notDirectory => "Not a directory (os error 20)"
  | isDirectory => "Is a directory (os error 21)"
  | nameTooLong => "File name too long (os error 36)"
  | nulInName => "file name contained an unexpected NUL byte"

end FileFault

abbrev Files := FilePath → Except FileFault String

namespace Files

def empty : Files := fun _ => .error .notFound

def write (files : Files) (path : FilePath) (text : String) : Files :=
  fun p => if p = path then .ok text else files p

def has (files : Files) (path : FilePath) : Bool :=
  match files path with
  | .ok _ => true
  | .error fault => fault = .isDirectory

theorem write_same (files : Files) (path : FilePath) (text : String) :
    files.write path text path = .ok text := by
  simp [write]

end Files

end TaintScan
