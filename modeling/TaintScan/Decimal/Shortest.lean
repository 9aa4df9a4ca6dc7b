import TaintScan.Text.Number

namespace TaintScan.Decimal

/-- A positive floating point number as `mantissa * 2 ^ exponent`. The number below it is half as
far away as the one above when the mantissa is the least of its range. -/
structure Binary where
  mantissa : Nat
  exponent : Int
  closerBelow : Bool

def Binary.ofBits (bits : Nat) : Binary :=
  let fraction : Nat := bits % Nat.pow 2 52
  let biased : Nat := bits / Nat.pow 2 52 % Nat.pow 2 11
  if biased = 0 then ⟨fraction, -1074, false⟩
  else ⟨Nat.pow 2 52 + fraction, (biased : Int) - 1075, fraction = 0 ∧ 1 < biased⟩

structure Ratio where
  num : Nat
  den : Nat

def Ratio.scaled (n : Nat) (e : Int) : Ratio :=
  if 0 ≤ e then ⟨n * Nat.pow 2 e.toNat, 1⟩ else ⟨n, Nat.pow 2 (-e).toNat⟩

def Ratio.shift (r : Ratio) (e : Int) : Ratio :=
  if 0 ≤ e then ⟨r.num, r.den * Nat.pow 10 e.toNat⟩
  else ⟨r.num * Nat.pow 10 (-e).toNat, r.den⟩

def Ratio.lies (r low high : Ratio) (ends : Bool) : Bool :=
  if ends then low.num * r.den ≤ r.num * low.den && r.num * high.den ≤ high.num * r.den
  else low.num * r.den < r.num * low.den && r.num * high.den < high.num * r.den

def Binary.low (b : Binary) : Ratio :=
  if b.closerBelow then .scaled (4 * b.mantissa - 1) (b.exponent - 2)
  else .scaled (2 * b.mantissa - 1) (b.exponent - 1)

def Binary.high (b : Binary) : Ratio := .scaled (2 * b.mantissa + 1) (b.exponent - 1)

/-- The number of digits before the decimal point; not positive for fractions that start with
zeros. -/
def Ratio.magnitude (r : Ratio) : Int :=
  if r.den ≤ r.num then (Text.natural (r.num / r.den)).length
  else
    let zeros : Nat := ((List.range 400).find? fun n => r.den ≤ r.num * Nat.pow 10 (n + 1)).getD 0
    Int.negOfNat zeros

inductive Tie
  /-- The one farther from zero. -/
  | away
  /-- The one with the even digit. -/
  | even
deriving DecidableEq

def Tie.goesUp (tie : Tie) (down remainder den : Nat) : Bool :=
  den < 2 * remainder || (den = 2 * remainder && (tie = .away || down % 2 = 1))

def Binary.onGrid? (b : Binary) (tie : Tie) (e : Int) : Option Nat :=
  let value := Ratio.scaled b.mantissa b.exponent
  let shifted := value.shift e
  let down := shifted.num / shifted.den
  let fits (n : Nat) : Bool :=
    Ratio.lies (Ratio.shift ⟨n, 1⟩ (-e)) b.low b.high (b.mantissa % 2 = 0)
  match fits down, fits (down + 1) with
  | true, true =>
    some (if tie.goesUp down (shifted.num % shifted.den) shifted.den then down + 1 else down)
  | true, false => some down
  | false, true => some (down + 1)
  | false, false => none

def Binary.shortest (b : Binary) (tie : Tie) : Nat × Int :=
  let magnitude := (Ratio.scaled b.mantissa b.exponent).magnitude
  let tried := (List.range 17).findSome? fun (digits : Nat) =>
    let e := magnitude - (digits + 1)
    (b.onGrid? tie e).map fun n => (n, e)
  tried.getD (0, 0)

def positional (n : Nat) (e : Int) : Nat × List Char :=
  if 0 ≤ e then (n * Nat.pow 10 e.toNat, [])
  else
    let places := (-e).toNat
    let digits := Text.natural (n % Nat.pow 10 places)
    (n / Nat.pow 10 places,
      ((List.replicate (places - digits.length) '0' ++ digits).reverse.dropWhile (· == '0')).reverse)

def ofFloat (tie : Tie) (f : Float) : Bool × Nat × List Char :=
  let bits := f.toBits.toNat
  let negative := decide (Nat.pow 2 63 ≤ bits)
  let b := Binary.ofBits bits
  if b.mantissa = 0 then (negative, 0, [])
  else
    let (n, e) := b.shortest tie
    let (whole, fraction) := positional n e
    (negative, whole, fraction)

/-- The positional text of a number, without a fraction when it is whole. A tie goes away from
zero. -/
def text (f : Float) : List Char :=
  if f.isNaN then "NaN".toList
  else if f.isInf then if f < 0 then "-inf".toList else "inf".toList
  else
    let (negative, whole, fraction) := ofFloat .away f
    (if negative then ['-'] else []) ++ Text.natural whole ++
      (if fraction.isEmpty then [] else '.' :: fraction)

end TaintScan.Decimal
