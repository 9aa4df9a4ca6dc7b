import TaintScan.Limits
import TaintScan.Uri.File
import TaintScan.Uri.Reader

namespace TaintScan

inductive Location
  | file (path : FilePath)
  | remote (uri : Uri)
  | inline (content : String)
deriving DecidableEq

namespace Location

def looksLikePath (text : String) : Bool :=
  match text.toList with
  | '/' :: _ => true
  | '.' :: _ => true
  | _ => false

def ofPlain (files : Files) (text : String) : Location :=
  if files.has (.ofText text) || looksLikePath text then .file (.ofText text)
  else .inline text

def ofText [Uri.Idna] (files : Files) (text : String) : Location :=
  match Uri.read text with
  | .error _ => ofPlain files text
  | .ok uri =>
    if uri.scheme = "file" then
      match uri.filePath? with
      | some path => .file path
      | none => ofPlain files text
    else if 1 < uri.scheme.length then .remote uri
    else ofPlain files text

def uri : Location → String
  | file path =>
    match Uri.ofFilePath? path with
    | some uri => uri.text
    | none => path.text
  | remote uri => uri.text
  | inline _ => "inline:stylesheet"

def isRemote : Location → Bool
  | remote _ => true
  | _ => false

def isFile : Location → Bool
  | file _ => true
  | _ => false

def bounded (limits : Limits) (text : String) : Except Error String :=
  (limits.checkDocumentSize text.utf8ByteSize).map fun _ => text

def load (limits : Limits) (files : Files) : Location → Except Error String
  | file path =>
    match files path with
    | .ok text => bounded limits text
    | .error fault => .error (.resource (.unreadable path.text fault))
  | remote uri => .error (.resource (.remote uri.text))
  | inline content => bounded limits content

end Location

end TaintScan
