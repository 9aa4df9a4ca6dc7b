import TaintScan.Text.CombiningClass
import TaintScan.Text.Mark

namespace TaintScan.Text

/-- The sides a letter joins on: `d` both, `l` the one behind, `r` the one in front, `t` none, but the
letters around it join; `x` does not join. Nonspacing marks are as `t`. -/
def joiningRuns : Runs := .ofText "
  620x 1d 1x 4r 1d 1r 1d 1r 5d 4r Dd 1x 7d 1r 17d Ex 3d 3r 5x Fd 12r 26d 1r 2d 9r 1d 1r 1d 1r 2d 2r
  1x 9r 10x 2r Ax 3d 2x 1d 10x 2r 3d 5r 4d 1r 9d 1r 1d 1r 1d 1r 2d 1Fr Bd 3r Fd 2r 4d 1r 1d 2r 3d
  2r 6d 4Ax 2Ad 4Cx 1r 5d 2r 1d 1r Ad 1r 1d 8r 2x 1d 1x 4d 1x 1r 1d 1Ar 3x 1d 2x 5d 1r 1Bd 3r 1x 1r
  2d 2r 6d 1r Fd F3Ex 1d 18x 60d 7x 29d 8F90x 32d 1l 624Dx 5d 1r 1x 1r 1x 2r 2x 1l 5r 4d 1l 5d 1r
  3d 1r 2x 7r 4d 1r 90x 1d 1r 1d 3r 3d 1r 2d 1r 1d 2r 1d 8r 10x 4r 2d 151x 1l 21d 1r Dd 192x 1r 2d
  1x Ad 60x 3d 1r 11d Cx 3d 1r 1Bx 4d 2r 10d 2Ax 1d 1x 2d 3r 1x 1d 2r 2d 1r 2d 1x 1d 2r 1d 4x 1r 1d
  15l D942x 29d 5t
"

def isTransparent (c : Char) : Bool := isNonspacing c || joiningRuns.at? c.toNat == some 't'

def joins (sides : List Char) (cs : List Char) : Bool :=
  ((cs.dropWhile isTransparent).head?.bind fun c => joiningRuns.at? c.toNat).any sides.contains

def nonJoiner : Char := '\u200c'

def joiner : Char := '\u200d'

/-- A joiner or its opposite may stand behind a virama, and the opposite between letters that would
join. The text before is given backwards. -/
def joinerFits (before : List Char) (c : Char) (behind : List Char) : Bool :=
  before.head?.any isVirama ||
    (c == nonJoiner && joins ['d', 'l'] before && joins ['d', 'r'] behind)

def joinersFit (before : List Char) : List Char → Bool
  | [] => true
  | c :: rest =>
    (if c == joiner || c == nonJoiner then joinerFits before c rest else true) &&
      joinersFit (c :: before) rest

end TaintScan.Text
