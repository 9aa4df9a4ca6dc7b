import TaintScan.FilePath
import TaintScan.Uri.Basic

namespace TaintScan.Uri

def isDriveMark (b : UInt8) : Bool := b == 0x3A || b == 0x7C

def isLetterByte (b : UInt8) : Bool := (0x41 ≤ b && b ≤ 0x5A) || (0x61 ≤ b && b ≤ 0x7A)

def closeDrive (bytes : List UInt8) : List UInt8 :=
  match bytes.reverse with
  | mark :: letter :: _ :: _ =>
    if isLetterByte letter && isDriveMark mark then bytes ++ [FilePath.separator] else bytes
  | _ => bytes

def filePath? (u : Uri) : Option FilePath :=
  match u.host?, u.path with
  | none, .rooted segments =>
    some ⟨closeDrive (segments.flatMap fun s => FilePath.separator :: Percent.decode s)⟩
  | _, _ => none

def ofFilePath? (p : FilePath) : Option Uri :=
  if p.isAbsolute then
    let segments := p.names.map (Percent.encodeBytes reservedInFileName)
    some ⟨"file", some .here, .rooted (if segments.isEmpty then [[]] else segments), none, none⟩
  else none

end TaintScan.Uri
