import TaintScan.Text.Runs

namespace TaintScan.Text

def markRuns : Runs := .ofText "
  300x 71n 112x 8n 106x 2Dn 1x 1n 1x 2n 1x 2n 1x 9n 40x Bn 30x 15n 10x 1n 65x 8n 1x 6n 2x 2n 1x 4n
  23x 1n 1Ex 1Dn 59x Bn 3Ax 9n 9x 1n 18x 4n 1x 9n 1x 3n 1x 7n 29x 5n 39x 9n 2Ax 39n 1s 36x 1n 1s 1n
  1x 3s 8n 4s 1n 2s 1x Fn 2x 2n 1Dx 1n 3s 37x 1n 1x 3s 6n 6s 1n 9x 9s 2x 4n 18x 5n 2s 37x 2n 3s 1Bn
  14x 2n 3x 1n Bx 2n 2s 37x 1n 1x 3s 8n 4s 3n 12x 4n 14x 8n 3s 37x 1n 1x 1s 1n 1s 6n 6s An 8s 3x 4n
  1Cx 1n 3Bx 2s 1n Cs 3n 7x Fs 1Ax 1n 3s 1n 37x 1n 1x 3n 5s 12n Ax 4n 1Bx 1n 2s 38x 1n 1x 1s 1n 6s
  1n 5s 9n 7s 6x 4n Dx Ds 2n 2s 37x 2n 1x 3s 5n 7s 1n 9x 1s Ax 4n 1Bx 1n 3s 45x 5n 3s 6n Es Cx 2s
  3Dx 1n 2x Bn 8x 8n 62x 1n 2x 9n Bx 8n 48x 2n 1Bx 1n 1x 1n 1x 1n 4x 2s 31x En 1s 5n 1x 2n 5x 31n
  8x 1n 64x 2s 4n 1s 6n 1s 2n 2s 2n 17x 2s 2n 4x 3n 1x 3s 2x 7s 3x 4n Dx 1n 2s 2n 6s 1n 1x 1s Ax 3s
  1n 2BFx 3n 3B2x 3n As 13x 2n 1s 1Dx En 12x En 36x 1s 7n 8s 1n 2s Bn 9x 3n A5x 2n 22x 1n 76x 3n 4s
  2n 9s 1n 6s 7n D7x 2n 2s 3n 37x 1s 1n 1s 9n 1s 1n 2s 8n 6s Dn 30x 54n 1s 2Fx 1n 1s 5n 1s 1n 5s 1n
  2s 26x 9n Cx 2n 1s 1Ex 1s 4n 2s 2n 1s 3n 38x 1n 1s 2n 3s 1n 1s 3n As 28x 8s 8n 2s 5n 95x 3n 1x Dn
  1s 7n 4x 1n 6x 1n 2x 1s 2n C6x 41n 2CFx 34n BEBx 4n 8Cx 1n 60x 20n 22Ax 4n 2s 69x 4n 75D2x 4n 1x
  An 20x 2n 50x 2n 110x 1n 3x 1n 4x 1n 17x 2s 2n 1s 4x 4n 50x 2s 32x 10s An 12x 12n Dx 1n 26x 8n
  19x Bn Ds 21x 3n 1s 2Fx 1n 2s 4n 2s 2n 3s 24x 1n 43x 6n 2s 2n 2s Bn 3x 1n 8x 1n 3s 2Bx 1s 1n 1s
  32x 1n 1x 3n 2x 2n 5x 2n 1x 1n 29x 1s 2n 2s 5x 1s Bn E2x 2s 1n 2s 1n 2s 1x 1s 3n 4F2Ex 94n 26Ex
  25n 3B8x 83n 60x 1n 95x An 681x Fn 28x 8n A5x 6n 239x Cn 39x 5n 13Dx 2n 4Dx 6n 46x Bn 31x 4n 7Ax
  1s 1n 1s 35x Fn 29x 1n 2x 2n Ax 3n 1s 2Dx 3s 4n 2s 2n 7x En 30x 3n 24x 5n 1s 9n Fx 2s 2Cx 1n Cx
  2n 1s 30x 3s 9n 2s 8x 4n 1x 1s 1n 5Cx 3s 3n 2s 1n 1s 2n 6x 1n 2x 3Fn 5Fx 1n 3s Dn 10x 2n 3s 36x
  2n 1x 2s 1n Fs 7x 6s 5x 4s 1An 3Bx 7n Cx 1n 1x 1n 1x 1n Ex 1Fn 35x 3s 8n 2s 3n 1s 1n 17x 1n 51x
  3s 6n 1s 1n 4s 2n 1s 2n EBx 3s 6n 4s 2n 1s 2n 1Bx 24n 30x 3s 8n 2s 1n 1s 2n 6Ax 1n 1s 1n 2s 6n 1s
  1n 65x 1n 1s 1n 2s 4n 1s 9n FCx 3s 9n 1s 2n F5x Bs 2n 1s 1n 1x 1s 1x 1s 1n 8Dx 3s 8n 4s 1n 3x 1Cs
  1x An 28x 6n 1s 1x 4n 8x 9n 1x 6n 2s 3n 2Ex Dn 1s 2n C6x 1n 1x 3n 1x 1n C8x 1s En 1s 1n 52x 17n
  1s 7n 1s 2n 1s 4Bn 31x 15n 1x 9n 3Ax 6s 3n 2s 1n 1s 1n 15Bx 2n 2s 9x 2n 1x 1s 30x 2s 8n 2s 1n 1s
  1n 17x 56n 1490x 1n 6x 19n 2CBEx Cn 3x 3n 9C0x 5n 3Bx 7n 418x 1n 1x 3Es 4n 51x Cn 2s 4CABx 2n
  1261x 50n 215x 2s 3n 3x Es 8n 2x 7n 1Ex 4n 94x 3n 7BBx 37n 4x 32n 8x 1n Ex 1n 16x 465n 100x 100n
  30x 7n 177x 12n 2Cx 4n 1FCx 4n FEx 2n F3x 1n 2x 1n 7x 2n 5x 9n 1D2x 52n 22x 7n
"

def isMark (c : Char) : Bool := [some 'n', some 's'].contains (markRuns.at? c.toNat)

def isNonspacing (c : Char) : Bool := markRuns.at? c.toNat == some 'n'

theorem isMark_of_isNonspacing {c : Char} (h : isNonspacing c = true) : isMark c = true := by
  rw [isNonspacing, beq_iff_eq] at h
  rw [isMark, h]
  rfl

end TaintScan.Text
