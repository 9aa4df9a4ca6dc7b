import TaintScan.Text.Pieces
import TaintScan.Text.Utf8

namespace TaintScan

structure FilePath where
  bytes : List UInt8
deriving DecidableEq, Inhabited

namespace FilePath

def separator : UInt8 := 0x2F

def dot : UInt8 := 0x2E

def ofText (s : String) : FilePath := ⟨Text.toBytes s.toList⟩

/-- The path for a reader. Malformed bytes are shown by a replacement character. -/
def text (p : FilePath) : String := String.ofList (Text.ofBytes p.bytes)

def isAbsolute (p : FilePath) : Bool := p.bytes.head? == some separator

def pieces (p : FilePath) : List (List UInt8) := Text.pieces (· == separator) p.bytes

def names (p : FilePath) : List (List UInt8) :=
  p.pieces.filter fun name => !name.isEmpty && name != [dot]

def child (p : FilePath) (name : String) : FilePath :=
  if p.bytes.isEmpty || p.bytes.getLast? == some separator then
    ⟨p.bytes ++ Text.toBytes name.toList⟩
  else ⟨p.bytes ++ separator :: Text.toBytes name.toList⟩

end FilePath

end TaintScan
