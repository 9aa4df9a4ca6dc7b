import TaintScan.Error

namespace TaintScan

/-- A stem usable as an element name and a host label, and the least length of a token. -/
structure Marker where
  stem : String
  minLength : Nat
  safe : Name.isMarkerSafe stem.toList = true
  stem_le : stem.length ≤ minLength

namespace Marker

def make (stem : String) (minLength : Nat) : Except Error Marker :=
  if safe : Name.isMarkerSafe stem.toList = true then
    .ok ⟨stem, max minLength stem.length, safe, Nat.le_max_right _ _⟩
  else .error (.value (.unsafeStem stem))

/-- The first run of marker characters that begins with a stem and is long enough. A run that is
too short is left behind as a whole. -/
def findRun (stem : List Char) (least : Nat) : List Char → Option (List Char)
  | [] => none
  | c :: rest =>
    if stem.isPrefixOf (c :: rest) then
      let run := (c :: rest).takeWhile Name.isMarkerChar
      if least ≤ run.length then some run
      else findRun stem least (rest.dropWhile Name.isMarkerChar)
    else findRun stem least rest
termination_by cs => cs.length
decreasing_by
  · exact Nat.lt_succ_of_le (List.dropWhile_suffix _).length_le
  · exact Nat.lt_succ_self _

def tokenIn (m : Marker) (value : String) : Option String :=
  (findRun m.stem.toList m.minLength value.toList).map String.ofList

end Marker

end TaintScan
