import TaintScan.Text.Ascii

namespace TaintScan

structure Uuid where
  bits : BitVec 128
deriving DecidableEq, Inhabited

namespace Uuid

instance : Hashable Uuid := ⟨fun u => hash u.bits.toNat⟩

def nil : Uuid := ⟨0⟩

def digits (u : Uuid) : List Char :=
  (List.range 32).map fun i => Text.hexDigit (u.bits.toNat / Nat.pow 16 (31 - i) % 16)

def chars (u : Uuid) : List Char :=
  let d := u.digits
  d.take 8 ++ '-' :: (d.drop 8).take 4 ++ '-' :: (d.drop 12).take 4 ++
    '-' :: (d.drop 16).take 4 ++ '-' :: d.drop 20

def text (u : Uuid) : String := String.ofList u.chars

def short (u : Uuid) : String := String.ofList (u.digits.take 8)

def fold (u : Uuid) : UInt64 :=
  UInt64.ofNat (u.bits.toNat / UInt64.size) ^^^ UInt64.ofNat (u.bits.toNat % UInt64.size)

def ofDigits? (cs : List Char) : Option Uuid :=
  if cs.length = 32 then
    (cs.mapM Text.hexValue?).map fun ds => ⟨BitVec.ofNat 128 (ds.foldl (fun n d => n * 16 + d) 0)⟩
  else none

def hyphenAt (i : Nat) : Bool := i == 8 || i == 13 || i == 18 || i == 23

def ofHyphenated? (cs : List Char) : Option Uuid :=
  if cs.zipIdx.all fun (c, i) => (c == '-') == hyphenAt i then
    ofDigits? (cs.filter (· != '-'))
  else none

def ofBraced? (cs : List Char) : Option Uuid :=
  match cs with
  | '{' :: rest => if rest.getLast? == some '}' then ofHyphenated? rest.dropLast else none
  | _ => none

def ofUrn? (cs : List Char) : Option Uuid :=
  if Text.lowerCase (cs.take 9) == "urn:uuid:".toList then ofHyphenated? (cs.drop 9) else none

def ofChars? (cs : List Char) : Option Uuid :=
  (ofHyphenated? cs).or ((ofDigits? cs).or ((ofBraced? cs).or (ofUrn? cs)))

def ofText? (s : String) : Option Uuid := ofChars? s.toList

/-- The version-4 identifier of sixteen random bytes, most significant first: the version and
variant bits are overwritten. -/
def ofRandomBytes (bytes : List UInt8) : Uuid :=
  let stamped := bytes.zipIdx.map fun (b, i) =>
    if i = 6 then (b &&& 0x0f) ||| 0x40 else if i = 8 then (b &&& 0x3f) ||| 0x80 else b
  ⟨BitVec.ofNat 128 (stamped.foldl (fun n b => n * 256 + b.toNat) 0)⟩

end Uuid

end TaintScan
