import TaintScan.Text.Ascii
import TaintScan.Text.Number
import TaintScan.Text.Pieces
import TaintScan.Text.Search

namespace TaintScan.Uri

def numberIn? (base : Nat) (cs : List Char) : Option Nat :=
  cs.foldlM (fun n c =>
    match Text.hexValue? c with
    | some d => if d < base then some (n * base + d) else none
    | none => none) 0

def joinWith (separator : Char) : List (List Char) → List Char
  | [] => []
  | [part] => part
  | part :: rest => part ++ separator :: joinWith separator rest

structure Ipv4 where
  address : UInt32
deriving DecidableEq

namespace Ipv4

def number? (cs : List Char) : Option Nat :=
  match cs with
  | [] => none
  | '0' :: c :: rest =>
    if c == 'x' || c == 'X' then numberIn? 16 rest else numberIn? 8 (c :: rest)
  | cs => numberIn? 10 cs

def parts (cs : List Char) : List (List Char) :=
  let all := Text.pieces (· == '.') cs
  if all.getLast? == some [] then all.dropLast else all

def endsInNumber (cs : List Char) : Bool :=
  match (parts cs).getLast? with
  | none => false
  | some last => (!last.isEmpty && last.all Char.isDigit) || (number? last).isSome

def ofNumbers? (numbers : List Nat) : Option Ipv4 :=
  match numbers.getLast? with
  | none => none
  | some last =>
    let leading := numbers.dropLast
    if 3 < leading.length || Nat.pow 256 (4 - leading.length) ≤ last || leading.any (255 < ·) then none
    else
      let high := leading.foldl (fun n octet => n * 256 + octet) 0
      some ⟨UInt32.ofNat (high * Nat.pow 256 (4 - leading.length) + last)⟩

def read? (cs : List Char) : Option Ipv4 := ((parts cs).mapM number?).bind ofNumbers?

def octet (a : Ipv4) (i : Nat) : Nat := a.address.toNat / Nat.pow 256 (3 - i) % 256

def chars (a : Ipv4) : List Char :=
  joinWith '.' ((List.range 4).map fun i => Text.natural (a.octet i))

end Ipv4

structure Ipv6 where
  pieces : Vector UInt16 8
deriving DecidableEq

namespace Ipv6

def piece? (cs : List Char) : Option UInt16 :=
  if cs.isEmpty || 4 < cs.length then none else (numberIn? 16 cs).map UInt16.ofNat

def octet? (cs : List Char) : Option Nat :=
  match cs with
  | [] => none
  | ['0'] => some 0
  | '0' :: _ => none
  | cs => (numberIn? 10 cs).filter (· < 256)

def dotted? (cs : List Char) : Option (List UInt16) :=
  match (Text.pieces (· == '.') cs).mapM octet? with
  | some [a, b, c, d] => some [UInt16.ofNat (256 * a + b), UInt16.ofNat (256 * c + d)]
  | _ => none

def run? (allowDotted : Bool) : List (List Char) → Option (List UInt16)
  | [] => some []
  | [last] =>
    if allowDotted && last.contains '.' then dotted? last else (piece? last).map fun p => [p]
  | part :: rest => do
    let piece ← piece? part
    let others ← run? allowDotted rest
    return piece :: others

def side? (allowDotted : Bool) (cs : List Char) : Option (List UInt16) :=
  if cs.isEmpty then some [] else run? allowDotted (Text.pieces (· == ':') cs)

def ofPieces? (pieces : List UInt16) : Option Ipv6 :=
  if h : pieces.length = 8 then some ⟨⟨pieces.toArray, by simp [h]⟩⟩ else none

def fillGap? (before after : List UInt16) : Option Ipv6 :=
  let known := before.length + after.length
  if known < 8 then ofPieces? (before ++ List.replicate (8 - known) 0 ++ after) else none

def read? (cs : List Char) : Option Ipv6 :=
  match Text.splitAtFirst [':', ':'] cs with
  | none => (run? true (Text.pieces (· == ':') cs)).bind ofPieces?
  | some (before, after) => do
    let before ← side? false before
    let after ← side? true after
    fillGap? before after

def zerosFrom (pieces : List UInt16) (i : Nat) : Nat :=
  ((pieces.drop i).takeWhile (· == 0)).length

def longestZeros (pieces : List UInt16) : Nat × Nat :=
  (List.range pieces.length).foldl (fun best i =>
    if best.2 < zerosFrom pieces i then (i, zerosFrom pieces i) else best) (0, 0)

def plainChars (pieces : List UInt16) : List Char :=
  joinWith ':' (pieces.map fun p => Nat.toDigits 16 p.toNat)

def chars (a : Ipv6) : List Char :=
  let pieces := a.pieces.toList
  let (start, length) := longestZeros pieces
  if length < 2 then plainChars pieces
  else plainChars (pieces.take start) ++ ':' :: ':' :: plainChars (pieces.drop (start + length))

end Ipv6

end TaintScan.Uri
