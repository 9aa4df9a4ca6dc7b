import TaintScan.Text.Composition
import TaintScan.Text.Direction
import TaintScan.Text.Joining
import TaintScan.Text.Punycode
import TaintScan.Uri.LabelChar

namespace TaintScan.Uri.Label

def mark : List Char := "xn--".toList

def lengthLimit : Nat := 2000

/-- A label is a proper name: its characters may stand in one, it is in its composed form, begins
with no mark, and joins letters only where that shows. -/
def isProper (label : List Char) : Bool :=
  label.all isLabelChar && !label.head?.any Text.isMark && !mark.isPrefixOf label &&
    Text.composed label == label && Text.joinersFit [] label

def decode? (written : List Char) : Option (List Char) :=
  if written.getLast? == some '-' || written.isEmpty || lengthLimit < written.length then none
  else (Text.Punycode.decode? written).filter isProper

def name? (label : List Char) : Option (List Char) :=
  if mark.isPrefixOf label then decode? (label.drop mark.length) else some label

def areValid (labels : List (List Char)) : Bool :=
  if labels.any mark.isPrefixOf then (labels.mapM name?).any Text.fitDirections else true

theorem areValid_of_no_mark {labels : List (List Char)}
    (h : labels.any mark.isPrefixOf = false) : areValid labels = true := by
  simp [areValid, h]

end TaintScan.Uri.Label
