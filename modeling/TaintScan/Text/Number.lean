namespace TaintScan.Text

def natural (n : Nat) : List Char := Nat.toDigits 10 n

def integer (n : Int) : List Char :=
  if n < 0 then '-' :: natural n.natAbs else natural n.natAbs

def natural? (cs : List Char) : Option Nat :=
  if !cs.isEmpty && cs.all Char.isDigit then some (Nat.ofDigitChars 10 cs 0) else none

def int64OfInt? (n : Int) : Option Int64 :=
  if Int64.minValue.toInt ≤ n ∧ n ≤ Int64.maxValue.toInt then some (Int64.ofInt n) else none

def int64? : List Char → Option Int64
  | '-' :: rest => (natural? rest).bind fun n => int64OfInt? (-n)
  | '+' :: rest => (natural? rest).bind fun n => int64OfInt? n
  | cs => (natural? cs).bind fun n => int64OfInt? n

end TaintScan.Text
