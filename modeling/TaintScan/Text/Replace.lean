import TaintScan.Text.Search

namespace TaintScan.Text

def replaceFrom (piece replacement : List Char) : Nat → List Char → List Char
  | _, [] => []
  | skip + 1, _ :: rest => replaceFrom piece replacement skip rest
  | 0, c :: rest =>
    if !piece.isEmpty && piece.isPrefixOf (c :: rest) then
      replacement ++ replaceFrom piece replacement (piece.length - 1) rest
    else c :: replaceFrom piece replacement 0 rest

def replaceAll (piece replacement text : List Char) : List Char :=
  replaceFrom piece replacement 0 text

end TaintScan.Text
