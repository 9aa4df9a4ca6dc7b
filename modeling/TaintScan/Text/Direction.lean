import TaintScan.Text.Mark

namespace TaintScan.Text

inductive Direction
  | leftToRight
  | rightToLeft
  | arabicFigure
  | figure
  | neutral
  | mark
  | separator
deriving DecidableEq

namespace Direction

/-- The directions of characters that are no nonspacing marks: `r` from right to left, `a` Arabic
figures, `e` other figures, `o` neutral, `x` separators; all others are `l`, from left to right. -/
def runs : Runs := .ofText "
  9o 5x Eo 5x Fo Ae 27o 1Al 64o 18l 1o 1C1l 2o 7l Eo 2l 1Co 1l 82o 4l 2o 7Fl 2o 192l 34o 48r 2o 1r
  2o 1r 1o 1r Do 45r Aa 1o 2a 71r 7o 4r 5o 2r Ae FCr 4o 109r EFl 2o 7l 1o F5l 8o FAl Eo 77l 7o 1C0l
  1o FAl 4o 452l 10o 60l 1o 29Al 5o 13Bl 1o 14l 20o 130l 6o 98l 22o 60Cl B5o 43l 4Ao 3Cl 1ACo 45l
  1Ao 1l 91o 19l 26Co 1l 153o 100l 296o 1l 99o B5l 7o Dl 7o 100l 205o 3l 19o Fl 1o 6l 4o 2l 4o 5Fl
  1o 5Al 1o C4l 24o 1BDCl 40o 5690l 40o 13Dl 3o 63l Eo 7Fl 23o 65l 1o 9Fl 8o 8l 8o 34l Co 2EAl 56o
  4FF2l 18Cr 52o 3Fr A4o 18Dr 101l 1o 3El 4Do 3l 40o 111l 1Fe 500l 11Fr 1o 219r 7o 1F0r 10a 120r
  20a 180r 52l 14o 5FAl 20o 955l 2Ao 4FE3l 1o 6206l D7o 40l 60o F9Fl 1D1o 330l 6F0r 260o 1Dl 3o 3Dl
  39o 7Al 478o 4l 9Bo 4l 137o 4El 154o Cl 29o 7l 2Eo 1l 7o 8l Eo 4l 9o 7l DBo
"

def plainMarks : List Nat := [0xCBF, 0xCC6, 0x11A07, 0x11A08, 0x11C3F]

def ofChar (c : Char) : Direction :=
  if isNonspacing c then if plainMarks.contains c.toNat then .leftToRight else .mark
  else
    match runs.at? c.toNat with
    | some 'r' => .rightToLeft
    | some 'a' => .arabicFigure
    | some 'e' => .figure
    | some 'o' => .neutral
    | some 'x' => .separator
    | _ => .leftToRight

def turns (d : Direction) : Bool := d = .rightToLeft || d = .arabicFigure

def lastPlain? (ds : List Direction) : Option Direction :=
  ds.reverse.find? fun d => d != .mark

def fitsLeftToRight (ds : List Direction) : Bool :=
  ds.all [.leftToRight, .figure, .neutral, .mark].contains &&
    (lastPlain? ds).any [.leftToRight, .figure].contains

def fitsRightToLeft (ds : List Direction) : Bool :=
  ds.all [.rightToLeft, .arabicFigure, .figure, .neutral, .mark].contains &&
    (lastPlain? ds).any [.rightToLeft, .arabicFigure, .figure].contains &&
    !(ds.contains .arabicFigure && ds.contains .figure)

def fits : List Direction → Bool
  | [] => true
  | .leftToRight :: rest => fitsLeftToRight (.leftToRight :: rest)
  | .rightToLeft :: rest => fitsRightToLeft (.rightToLeft :: rest)
  | _ => false

end Direction

/-- Names that stand side by side fit the directions of their characters. Without a character that
turns there is nothing to fit. -/
def fitDirections (names : List (List Char)) : Bool :=
  let directions := names.map (List.map Direction.ofChar)
  !directions.any (List.any · Direction.turns) || directions.all Direction.fits

end TaintScan.Text
