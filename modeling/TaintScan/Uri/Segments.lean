import TaintScan.Text.Ascii

namespace TaintScan.Uri

abbrev Segment := List Char

namespace Segment

def isDot (s : Segment) : Bool := [".".toList, "%2e".toList].contains (Text.lowerCase s)

def isDoubleDot (s : Segment) : Bool :=
  ["..".toList, "%2e.".toList, ".%2e".toList, "%2e%2e".toList].contains (Text.lowerCase s)

def isDriveLetter : Segment → Bool
  | [letter, mark] => letter.isAlpha && (mark == ':' || mark == '|')
  | _ => false

def isOnDrive (s : Segment) : Bool := isDriveLetter (s.take 2) && (s.drop 2).head?.all (· == '\\')

def up (done : List Segment) : List Segment :=
  match done.getLast? with
  | some last => if isOnDrive last then done else done.dropLast
  | none => done

/-- Follows segments from a place. A dot at the end leaves an empty segment behind. -/
def follow (done : List Segment) : List Segment → List Segment
  | [] => done
  | [last] =>
    if isDoubleDot last then up done ++ [[]]
    else if isDot last then done ++ [[]]
    else done ++ [last]
  | s :: rest =>
    if isDoubleDot s then follow (up done) rest
    else if isDot s then follow done rest
    else follow (done ++ [s]) rest

def dropEmptyFront : List Segment → List Segment
  | [] :: next :: rest => dropEmptyFront (next :: rest)
  | segments => segments

def chars (segments : List Segment) : List Char := segments.flatMap fun s => '/' :: s

end Segment

end TaintScan.Uri
