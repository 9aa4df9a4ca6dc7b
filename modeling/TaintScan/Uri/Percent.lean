import TaintScan.Text.Ascii
import TaintScan.Text.Utf8

namespace TaintScan.Uri

def isControl (c : Char) : Bool := c.toNat < 0x20 || c == '\x7f'

def reservedInQuery (c : Char) : Bool := isControl c || [' ', '"', '#', '<', '>'].contains c

def reservedInSpecialQuery (c : Char) : Bool := reservedInQuery c || c == '\x27'

def reservedInFragment (c : Char) : Bool := isControl c || [' ', '"', '<', '>', '`'].contains c

def reservedInPath (c : Char) : Bool := reservedInFragment c || ['#', '?', '{', '}'].contains c

def reservedInUser (c : Char) : Bool :=
  reservedInPath c || ['/', ':', ';', '=', '@', '[', '\\', ']', '^', '|'].contains c

def reservedInFileName (c : Char) : Bool := reservedInPath c || ['/', '%', '\\'].contains c

namespace Percent

def encodeByte (reserved : Char → Bool) (b : UInt8) : List Char :=
  let c := Char.ofNat b.toNat
  if b < 0x80 && !reserved c then [c]
  else ['%', Text.upperHexDigit (b.toNat / 16), Text.upperHexDigit (b.toNat % 16)]

def encodeBytes (reserved : Char → Bool) (bytes : List UInt8) : List Char :=
  bytes.flatMap (encodeByte reserved)

def encode (reserved : Char → Bool) (cs : List Char) : List Char :=
  encodeBytes reserved (Text.toBytes cs)

def decode : List Char → List UInt8
  | [] => []
  | '%' :: a :: b :: rest =>
    match Text.hexValue? a, Text.hexValue? b with
    | some high, some low => UInt8.ofNat (16 * high + low) :: decode rest
    | _, _ => 0x25 :: decode (a :: b :: rest)
  | c :: rest => String.utf8EncodeChar c ++ decode rest

end Percent

end TaintScan.Uri
