import TaintScan.Uri.Padding
import TaintScan.Uri.Percent
import TaintScan.Uri.Segments

namespace TaintScan.Uri

structure FilePlace where
  segments : List Segment
  /-- The first segment was a drive letter, so the file is one of this machine. -/
  namesDrive : Bool
deriving DecidableEq

namespace FilePlace

def up (p : FilePlace) : FilePlace := { p with segments := Segment.up p.segments }

def down (p : FilePlace) (s : Segment) : FilePlace := { p with segments := p.segments ++ [s] }

def written (raw : List Char) : Segment := Percent.encode reservedInPath (unbroken raw)

def divide? (raw : List Char) : Option (Segment × Segment) :=
  match raw.dropWhile isBreak with
  | letter :: behind =>
    match behind.dropWhile isBreak with
    | ':' :: rest =>
      if letter.isAlpha && rest.head?.any isBreak && !(unbroken rest).isEmpty then
        some ([letter, ':'], written rest)
      else none
    | _ => none
  | [] => none

def begin (raw : List Char) : FilePlace :=
  match divide? raw with
  | some (drive, rest) => ⟨[drive, rest], false⟩
  | none =>
    let s := written raw
    if Segment.isDriveLetter s then ⟨[s.take 1 ++ [':']], true⟩ else ⟨[s], false⟩

def enter (p : FilePlace) (raw : List Char) : FilePlace :=
  if p.segments.isEmpty then { begin raw with namesDrive := p.namesDrive || (begin raw).namesDrive }
  else p.down (written raw)

/-- Follows segments from a place. A dot at the end leaves an empty segment behind. -/
def follow (p : FilePlace) : List (List Char) → FilePlace
  | [] => p
  | [last] =>
    if Segment.isDoubleDot (written last) then p.up.down []
    else if Segment.isDot (written last) then p.down []
    else p.enter last
  | raw :: rest =>
    if Segment.isDoubleDot (written raw) then p.up.follow rest
    else if Segment.isDot (written raw) then p.follow rest
    else (p.enter raw).follow rest

end FilePlace

end TaintScan.Uri
