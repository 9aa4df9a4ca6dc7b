import TaintScan.Text.Ascii
import TaintScan.Text.Blank

namespace TaintScan.Text

abbrev Runs := List (Nat × Char)

namespace Runs

def digit? (c : Char) : Option Nat := if c.isLower then none else hexValue? c

/-- Reads runs: each is a hexadecimal number in upper case and a small letter for the value. -/
def ofText (text : String) : Runs :=
  (text.toList.foldl (fun (runs, length) c =>
    match digit? c with
    | some d => (runs, length * 16 + d)
    | none => if isBlank c then (runs, length) else ((length, c) :: runs, 0)) ([], 0)).1.reverse

def at? : Runs → Nat → Option Char
  | [], _ => none
  | (length, value) :: rest, i => if i < length then some value else at? rest (i - length)

end Runs

def hexNumbers (text : String) : List Nat :=
  (words text.toList).map fun w => w.foldl (fun n c => n * 16 + (hexValue? c).getD 0) 0

def triples : List α → List (α × α × α)
  | a :: b :: c :: rest => (a, b, c) :: triples rest
  | _ => []

end TaintScan.Text
