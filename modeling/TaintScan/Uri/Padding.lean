namespace TaintScan.Uri

def isPadding (c : Char) : Bool := c.toNat ≤ 0x20

def isBreak (c : Char) : Bool := c == '\t' || c == '\n' || c == '\r'

def unpadded (cs : List Char) : List Char :=
  ((cs.dropWhile isPadding).reverse.dropWhile isPadding).reverse

def unbroken (cs : List Char) : List Char := cs.filter fun c => !isBreak c

end TaintScan.Uri
