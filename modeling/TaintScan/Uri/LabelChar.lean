import TaintScan.Text.Runs

namespace TaintScan.Uri

def labelRuns : Text.Runs := .ofText "
  41v 1Ax 25v 21x 7v 1x 1v 1x 2v 1x 1v 1x 2v 4x 2v 3x 1v 3x 1v 17x 1v 7x 21v 1x 1v 1x 1v 1x 1v 1x
  1v 1x 1v 1x 1v 1x 1v 1x 1v 1x 1v 1x 1v 1x 1v 1x 1v 1x 1v 1x 1v 1x 1v 1x 1v 1x 1v 1x 1v 1x 1v 1x
  1v 1x 1v 1x 1v 1x 1v 1x 1v 1x 1v 3x 1v 1x 2v 1x 1v 1x 1v 1x 1v 3x 1v 1x 1v 1x 1v 1x 1v 2x 1v 1x
  1v 1x 1v 1x 1v 1x 1v 1x 1v 1x 1v 1x 1v 1x 1v 1x 1v 1x 1v 1x 1v 1x 1v 1x 1v 1x 1v 1x 1v 1x 1v 1x
  1v 1x 1v 1x 1v 1x 1v 1x 1v 1x 1v 2x 1v 1x 1v 1x 1v 1x 1v 2x 1v 1x 1v 2x 1v 3x 2v 4x 1v 2x 1v 3x
  3v 2x 1v 2x 1v 1x 1v 1x 1v 2x 1v 1x 2v 1x 1v 2x 1v 3x 1v 1x 1v 2x 3v 1x 7v Ax 1v 1x 1v 1x 1v 1x
  1v 1x 1v 1x 1v 1x 1v 1x 2v 1x 1v 1x 1v 1x 1v 1x 1v 1x 1v 1x 1v 1x 1v 1x 1v 1x 2v 4x 1v 3x 1v 1x
  1v 1x 1v 1x 1v 1x 1v 1x 1v 1x 1v 1x 1v 1x 1v 1x 1v 1x 1v 1x 1v 1x 1v 1x 1v 1x 1v 1x 1v 1x 1v 1x
  1v 1x 1v 1x 1v 1x 1v 1x 1v 1x 1v 1x 1v 1x 1v 1x 1v 1x 1v 1x 1v 1x 1v 1x 7v 2x 1v 2x 2v 1x 1v 4x
  1v 1x 1v 1x 1v 1x 1v 1x 61v 9x 1Fv 6x 2v 5x 5Bv 2x 1v 3x 9v 1x 20v 1x 1v 1x 1v 1x 1v 1x 1v 3x 3v
  12x 1v 1Bx 23v 8x 1v 1x 1v 1x 1v 1x 1v 1x 1v 1x 1v 1x 1v 1x 1v 1x 1v 1x 1v 1x 1v 1x 1v 1x 1v 3x
  1v 2x 1v 1x 1v 2x 2v 33x 30v 1x 1v 1x 1v 1x 1v 1x 1v 1x 1v 1x 1v 1x 1v 1x 1v 1x 1v 1x 1v 1x 1v 1x
  1v 1x 1v 1x 1v 1x 1v 1x 1v 1x 9v 1x 1v 1x 1v 1x 1v 1x 1v 1x 1v 1x 1v 1x 1v 1x 1v 1x 1v 1x 1v 1x
  1v 1x 1v 1x 1v 1x 1v 1x 1v 1x 1v 1x 1v 1x 1v 1x 1v 1x 1v 1x 1v 1x 1v 1x 1v 1x 1v 1x 1v 1x 1v 1x
  1v 2x 1v 1x 1v 1x 1v 1x 1v 1x 1v 1x 1v 1x 2v 1x 1v 1x 1v 1x 1v 1x 1v 1x 1v 1x 1v 1x 1v 1x 1v 1x
  1v 1x 1v 1x 1v 1x 1v 1x 1v 1x 1v 1x 1v 1x 1v 1x 1v 1x 1v 1x 1v 1x 1v 1x 1v 1x 1v 1x 1v 1x 1v 1x
  1v 1x 1v 1x 1v 1x 1v 1x 1v 1x 1v 1x 1v 1x 1v 1x 1v 1x 1v 1x 1v 1x 1v 1x 1v 1x 1v 1x 1v 1x 1v 1x
  1v 1x 1v 1x 1v 1x 1v 1x 1v 1x 1v 1x 1v 1x 1v 29x 2Ev 1x 3v 2x 3v 1x 37v 8x 1Bv 4x 6v 11x 16v 1x
  58v 4x 64v 1x 30v 2x 3Bv 2x 65v Ex 3Bv 2x 31v 2x Fv 1x 1Cv 2x 1v 1x Bv 5x 20v 7x 4Bv 1x 75v 8x
  24v 1x 8v 2x 2v 2x 16v 1x 7v 1x 1v 3x 4v 2x 9v 2x 2v 2x 4v 8x 1v 8x 4v 2x 19v 2x 3v 1x 6v 4x 2v
  2x 16v 1x 7v 1x 1v 2x 1v 2x 2v 2x 1v 1x 5v 4x 2v 2x 3v 3x 1v Ax 1v 9x 11v Ax 3v 1x 9v 1x 3v 1x
  16v 1x 7v 1x 2v 1x 5v 2x Av 1x 3v 1x 3v 2x 1v Fx 4v 2x Cv 7x 7v 1x 3v 1x 8v 2x 2v 2x 16v 1x 7v 1x
  2v 1x 5v 2x 9v 2x 2v 2x 3v 7x 3v 7x 5v 2x 12v Ax 2v 1x 6v 3x 3v 1x 4v 3x 2v 1x 1v 1x 2v 3x 2v 3x
  3v 3x Cv 4x 5v 3x 3v 1x 4v 2x 1v 6x 1v Ex 15v 5x Dv 1x 3v 1x 17v 1x 10v 2x 9v 1x 3v 1x 4v 7x 2v
  1x 3v 1x 2v 2x 4v 2x Av 7x 16v 1x 3v 1x 17v 1x Av 1x 5v 2x 9v 1x 3v 1x 4v 7x 2v 5x 3v 1x 4v 2x Av
  1x 3v Cx Dv 1x 3v 1x 33v 1x 3v 1x 6v 4x 10v 2x 1Av 1x 3v 1x 12v 3x 18v 1x 9v 1x 1v 2x 7v 3x 1v 4x
  6v 1x 1v 1x 8v 6x Av 2x 3v Cx 32v 1x 7v 4x 1Dv 25x 2v 1x 1v 1x 5v 1x 18v 1x 1v 1x Cv 1x Av 2x 5v
  1x 1v 1x 7v 1x Av 4x 2v 20x Cv 1x 36v 1x 4v 1x 4v 1x 4v 1x 4v 1x 4v 1x Cv 1x 3v 4x 2v 1x 1v 5x 7v
  1x 11v 1x 4v 1x 4v 1x 4v 1x 4v 1x 4v 1x Cv 1x 3v 1x Fv 1x Dv 25x A0v 30x 2Cv 1x 62v 2x E8v 1x 4v
  2x 7v 1x 1v 1x 4v 2x 29v 1x 4v 2x 21v 1x 4v 2x 7v 1x 1v 1x 4v 2x Fv 1x 39v 1x 4v 2x 43v 2x 20v 3x
  1Av 6x 56v Ax 280v 1x 1Cv 3x 59v 7x 16v 9x 18v 9x 14v Cx Dv 1x 3v 1x 2v Cx 34v 2x 28v 2x Av 6x Av
  6x Bv 5x Av 6x 59v 7x 2Bv 5x 46v Ax 1Fv 1x Cv 4x Cv 4x 1v 3x 2Av 2x 5v Bx 2Cv 4x 1Av 6x Bv 3x 3Ev
  2x 41v 1x 1Dv 2x Bv 6x Av 6x Ev 2x 2Ev 2x Cv 14x 4Dv 1x A6v 8x 3Cv 3x Fv 3x 33v Ax 1v 35x 8v 8x
  2Bv 5x 2Cv 3x 1v Bx 1v 12x 1v 1Cx Dv 1x 22v 25x 40v 1x 1v 1x 1v 1x 1v 1x 1v 1x 1v 1x 1v 1x 1v 1x
  1v 1x 1v 1x 1v 1x 1v 1x 1v 1x 1v 1x 1v 1x 1v 1x 1v 1x 1v 1x 1v 1x 1v 1x 1v 1x 1v 1x 1v 1x 1v 1x
  1v 1x 1v 1x 1v 1x 1v 1x 1v 1x 1v 1x 1v 1x 1v 1x 1v 1x 1v 1x 1v 1x 1v 1x 1v 1x 1v 1x 1v 1x 1v 1x
  1v 1x 1v 1x 1v 1x 1v 1x 1v 1x 1v 1x 1v 1x 1v 1x 1v 1x 1v 1x 1v 1x 1v 1x 1v 1x 1v 1x 1v 1x 1v 1x
  1v 1x 1v 1x 1v 1x 1v 1x 1v 1x 1v 1x 1v 1x 1v 1x 1v 1x 1v 1x 1v 1x 1v 1x 1v 1x 1v 1x 1v 1x 1v 1x
  1v 1x 1v 1x 1v 1x 5v 2x 2v 1x 1v 1x 1v 1x 1v 1x 1v 1x 1v 1x 1v 1x 1v 1x 1v 1x 1v 1x 1v 1x 1v 1x
  1v 1x 1v 1x 1v 1x 1v 1x 1v 1x 1v 1x 1v 1x 1v 1x 1v 1x 1v 1x 1v 1x 1v 1x 1v 1x 1v 1x 1v 1x 1v 1x
  1v 1x 1v 1x 1v 1x 1v 1x 1v 1x 1v 1x 1v 1x 1v 1x 1v 1x 1v 1x 1v 1x 1v 1x 1v 1x 1v 1x 1v 1x 1v 1x
  1v 1x 1v 1x 1v 1x 1v 1x 1v 1x 9v 8x 6v Ax 8v 8x 8v 8x 6v Ax 8v 8x 8v 8x 1v 1x 1v 1x 1v 1x 1v 1x
  1v 1x 1v 1x 1v 33x 2v 4x 1v Fx 1v 9x 3v 3x 2v 8x 3v 1x 4v Ex 1v 15x 2v 2x 1v 1x 5v 1x Cv 3x 1v 8x
  3v 2x 1v 2x 4v 1x 1v 1x 8v 3x Dv 1x 7v 41x 8v 1x 19v Ex 21v 13x 1v 3x 1v Bx 1v 2x 2v 5x 2v 3x 1v
  1x 1v 1x 1v 1x 1v 4x 1v Bx 1v 6x 4v 5x 6v 30x 3v 1x 5v 1x 2v 4x 9Cv 2x 1v 2x F8v 2x FFv 16x Bv
  A0x 521v 1x 67v 3x 65v 1x 97v 2x 8Av 30x 30v 1x 1v 3x 2v 1x 1v 1x 1v 1x 1v 4x 1v 1x 2v 1x 6v 5x
  1v 1x 1v 1x 1v 1x 1v 1x 1v 1x 1v 1x 1v 1x 1v 1x 1v 1x 1v 1x 1v 1x 1v 1x 1v 1x 1v 1x 1v 1x 1v 1x
  1v 1x 1v 1x 1v 1x 1v 1x 1v 1x 1v 1x 1v 1x 1v 1x 1v 1x 1v 1x 1v 1x 1v 1x 1v 1x 1v 1x 1v 1x 1v 1x
  1v 1x 1v 1x 1v 1x 1v 1x 1v 1x 1v 1x 1v 1x 1v 1x 1v 1x 1v 1x 1v 1x 1v 1x 1v 1x 1v 1x 1v 1x 1v 1x
  1v 1x 8v 1x 1v 1x 4v 1x 1v 5x 2Dv 1x 1v 5x 1v 2x 38v 8x 1v Ex 18v 9x 7v 1x 7v 1x 7v 1x 7v 1x 7v
  1x 7v 1x 7v 1x 7v 1x 7Ev 22x 1Av 1x 4v 1x 53v 10Ex 1v 1x 33v 1x 1v 3x 5v 1x 56v 2x 2v 2x 2v 1x
  5Fv 6x 2Bv 60x 2v Ex 46v Ax 10v 48x 8v 2Fx 1v 180x 708Dv 3x 37v 9x 15Cv 15x 1v 1x 1v 1x 1v 1x 1v
  1x 1v 1x 1v 1x 1v 1x 1v 1x 1v 1x 1v 1x 1v 1x 1v 1x 1v 1x 1v 1x 1v 1x 1v 1x 1v 1x 1v 1x 1v 1x 1v
  1x 1v 1x 1v 1x 13v 1x 1v 1x 1v 1x 1v 1x 1v 1x 1v 1x 1v 1x 1v 1x 1v 1x 1v 1x 1v 1x 1v 1x 1v 1x 1v
  1x 1v 2x 5Av 8x 22v 1x 1v 1x 1v 1x 1v 1x 1v 1x 1v 1x 1v 1x 3v 1x 1v 1x 1v 1x 1v 1x 1v 1x 1v 1x 1v
  1x 1v 1x 1v 1x 1v 1x 1v 1x 1v 1x 1v 1x 1v 1x 1v 1x 1v 1x 1v 1x 1v 1x 1v 1x 1v 1x 1v 1x 1v 1x 1v
  1x 1v 1x 1v 1x 1v 1x 1v 1x 1v 1x 1v 1x 1v 1x 1v 1x 1v 1x 8v 1x 1v 1x 1v 2x 1v 1x 1v 1x 1v 1x 1v
  1x 4v 1x 1v 1x 2v 1x 1v 1x 3v 1x 1v 1x 1v 1x 1v 1x 1v 1x 1v 1x 1v 1x 1v 1x 1v 1x 1v 1x 1v 5x 1v
  5x 1v 1x 1v 1x 1v 1x 1v 1x 1v 1x 1v 1x 1v 1x 1v 4x 1v 1x 1v 2x 1v 1x 1v 1x 1v 1x 1v 1x 1v 1x 1v
  1x 1v 1x 1v 1Ax 2v 2x 33v 3x Av 6x 38v 8x 46v 8x Cv 6x 74v Bx 1Ev 3x 4Ev 1x Bv 4x 21v 1x 37v 9x
  Ev 2x Av 2x 67v 18x 1Cv Ax 6v 2x 6v 2x 6v 9x 7v 1x 7v 1x 2Cv 4x 9v 1x 2v 54x 2Ev 2x Av 6x 2BA4v
  Cx 17v 4x 31v 2212x 2v 1x 1v 1x 2v Ax 1v 1x 1v 1x 2v 2x 3v F4x 1v 93x 21v 16Bx 12v 40x 2v 36x 8v
  2Dx 3v 20x 10v 15x 2v 2Cx 1v 18Cx Cv 1x 1Av 1x 13v 1x 2v 1x Fv 2x Ev 22x 7Bv 5x 3v 4x 2Dv 3x 58v
  1x Dv 3x 1v 2Fx 2Ev 82x 1Dv 3x 31v Fx 1Cv 4x 24v 9x 1Ev 5x 2Bv 5x 1Ev 1x 25v 4x Ev 52x 76v 2x Av
  2Ex 24v 4x 28v 8x 34v Bx 1v 27x Bv 1x Fv 1x 7v 1x 2v 3x 34v Cx 137v 9x 16v Ax 8v 18x 1v 7Fx 6v 2x
  1v 1x 2Cv 1x 2v 3x 1v 2x 17v 1x 48v 8x 9v 30x 13v 1x 2v 5x 21v 3x 1Bv 5x 1Bv 26x 38v 4x 14v 2x
  32v 1x 2v 5x 8v 1x 3v 1x 1Dv 2x 3v 4x Av 7x 9v 7x 40v 20x 27v 4x Cv 9x 36v 3x 1Dv 2x 1Bv 5x 1Av
  7x 4v Cx 7v 50x 49v 77x 33v 7x 2Ev 8x Av 6x 10v 19x 1Dv 8x 2v D0x 1Fv 1x 2Av 1x 3v 2x 2v 10x 6v
  8x 9v 21x 2Ev 8x 2Av 16x 1Av 26x 1Cv 14x 17v 9x 4Ev 4x 24v 9x 3Ev 1x 5v Dx 19v 7x Av 6x 35v 1x
  12v 8x 27v 9x 60v 1x 14v Bx 12v 1x 2Fv 3Ex 7v 1x 1v 1x 4v 1x Fv 1x Bv 6x 3Bv 5x Av 6x 4v 1x 8v 2x
  2v 2x 16v 1x 7v 1x 2v 1x 5v 1x Av 2x 2v 2x 3v 2x 1v 6x 1v 5x 7v 2x 7v 3x 5v Bx Av 1x 1v 2x 1v 1x
  26v 1x Av 1x 1v 2x 1v 1x 4v 1x Av 1x 2v 8x 2v 1Dx 5Cv 1x 5v 1Ex 48v 8x Av A6x 36v 2x 26v 22x 45v
  Bx Av 6x Dv 13x 3Av 6x Av 6x 14v 1Cx 1Bv 2x Fv 4x 17v B9x 3Cv 84x 33v Cx 8v 2x 1v 2x 8v 1x 2v 1x
  1Ev 1x 2v 2x Cv 9x Av 46x 8v 2x 2Ev 2x Bv 1Bx 48v 8x 53v Dx 49v 7x Av 56x 8v 58x 22v Ex Av 6x 9v
  1x 2Dv 1x Ev Ax 1Dv 3x 20v 2x 16v 1x Ev 49x 7v 1x 2v 1x 2Cv 3x 1v 1x 2v 1x 9v 8x Av 6x 6v 1x 2v
  1x 25v 1x 2v 1x 6v 7x Av 6x 2Cv 4x Av F6x 19v 7x 11v 1x 29v 3x 1Dv 55x 1v Fx 32v Dx 39Bv 66x 6Fv
  1x 5v Bx C4v A4Cx 63v Dx 430v 10x 16v Ax F9Bv 5x 247v 1AB9x 3Av 6C6x 239v 7x 1Fv 1x Av 4x 51v 1x
  Av 6x 1Ev 2x 6v Ax 46v Ax Av 1x 7v 1x 15v 5x 13v 1B0x 3Av E6x 3Bv 20x 19v 2Cx 4Bv 4x 39v 7x 11v
  40x 5v Bx 7v 9x 1CD6v 29x 20v 61x 73v 21FDx 4v 1x 7v 1x 2v 1x 123v Fx 1v 1Dx 3v 2x 1v Ex 4v 8x
  18Cv 904x 6Bv 5x Dv 3x 9v 7x Av 2x 4v F60x D6v 24x 3v 3x 1B4v 6x 17v Fx 11v Fx 2Ev 2x 17v 9x 74v
  3Cx F6v Ax 27v 2x 35v 7x Ev 8x 40v 6x 2Av 15x 46v 7Ax 14v Cx 14v Cx 57v 9x 19v 487x 28Cv Fx 5v 1x
  Fv 450x 1Fv 6x 6v D5x 7v 1x 11v 2x 7v 1x 2v 1x 5v 64x 1v 70x 2Dv 3x Ev 2x Av 4x 2v 140x 1Fv 11x
  3Av 5x 1v 1D0x 2Av D6x 2Bv 4x 1v C0x 1Fv 1x 16v 8x 2v E0x 7v 1x 4v 1x 2v 1x Fv 1x C5v 2x 10v 4Bx
  2Av 4x Av 4x 2v 311x 44v 4Cx 3Dv 1B2x 2v 10Ex 2Cv 4x 64v Cx Fv 2x Fv 1x Fv 1x 25v 15x 5v 1Fx 1v
  20x 1Av 3x 23v 1x 1Dv 38x 1Av 60x 6v 9Ax 3D9v 3x 11v 3x Dv 3x DAv 6x Cv 4x 1v Fx Cv 4x 38v 8x Av
  6x 28v 8x 1Ev 2x Cv 4x 2v Ex 9v 27x 158v 8x Ev 2x Dv 3x Bv 3x 39v 1x 1v 4x 10v 2x Cv 4x Av 7x 93v
  1x 5Cv Ax 1v 405x A6E0v 20x 111Ev 2x 168Ev 2x 1D31v Fx 26Ev 11A2x 134Bv 5x 212Av
"

def isLabelChar (c : Char) : Bool := labelRuns.at? c.toNat == some 'v'

end TaintScan.Uri
