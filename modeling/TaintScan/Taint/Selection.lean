import TaintScan.Random.Draw
import TaintScan.Taint.Marker
import TaintScan.Text.Search

namespace TaintScan.Marker

open TaintScan.Random (Draw Source Trial)

def firstChars : List Char := "abcdefghijklmnopqrstuvwxyz".toList

def laterChars : List Char := "abcdefghijklmnopqrstuvwxyz0123456789".toList

def drawChar (chars : List Char) : Draw Char := do
  let i ← Random.below .wide chars.length
  return chars.getD i 'a'

def drawSuffix (length : Nat) : Trial (List Char) :=
  if Breakdown.mostBytes < length then throw .capacity
  else liftM (Random.times length (drawChar laterChars))

def drawName (length : Nat) : Draw (List Char) := do
  let first ← drawChar firstChars
  let rest ← Random.times (length - 1) (drawChar laterChars)
  return first :: rest

def drawStem (length : Nat) : Trial (List Char) :=
  if Breakdown.mostBytes < length then throw .capacity else liftM (drawName length)

structure Selection where
  seed : UInt64
  stemLength : Nat

namespace Selection

def ofSeed (seed : UInt64) : Selection := ⟨seed, 5⟩

def withStemLength (s : Selection) (length : Nat) : Selection := { s with stemLength := max length 1 }

def minSuffixLength : Nat := 3

def maxAttempts : Nat := 1000

def drawFree (length : Nat) (text : List Char) : Nat → Trial (Option (List Char))
  | 0 => return none
  | attempts + 1 => do
    let stem ← drawStem length
    if Text.occursIn stem text then drawFree length text attempts else return some stem

def forText (s : Selection) (text : String) : Except Error Marker :=
  let free := drawFree s.stemLength (Text.lowerCase text.toList) maxAttempts
  match (free (Source.ofSeed s.seed)).1 with
  | .ok (some stem) => Marker.make (String.ofList stem) (s.stemLength + minSuffixLength)
  | .ok none => .error (.value (.exhausted s.stemLength maxAttempts))
  | .error cause => .error (.breakdown cause)

end Selection

end TaintScan.Marker
