import TaintScan.Decimal.Shortest

namespace TaintScan.Json

structure Numeral where
  negative : Bool
  whole : Nat
  fraction : List (Fin 10)
  exponent : Option Int
deriving DecidableEq, Inhabited

namespace Numeral

def ofInt (n : Int) : Numeral := ⟨decide (n < 0), n.natAbs, [], none⟩

def digitChar (d : Fin 10) : Char := Char.ofNat (48 + d.val)

def digit? (c : Char) : Option (Fin 10) :=
  if h : c.toNat - 48 < 10 then if c.isDigit then some ⟨c.toNat - 48, h⟩ else none else none

/-- The numeral of a finite floating point number: its shortest decimal, with a fraction. A tie goes
to the even digit. -/
def ofFloat (f : Float) : Numeral :=
  let (negative, whole, fraction) := Decimal.ofFloat .even f
  ⟨negative, whole, if fraction.isEmpty then [0] else fraction.filterMap digit?, none⟩

def chars (n : Numeral) : List Char :=
  (if n.negative then ['-'] else []) ++ Text.natural n.whole ++
    (if n.fraction.isEmpty then [] else '.' :: n.fraction.map digitChar) ++
    (match n.exponent with
      | none => []
      | some e => 'e' :: Text.integer e)

/-- The integer a numeral names. A fraction, an exponent or a minus sign before zero make it none,
and so does a value outside the 64-bit range of its sign. -/
def integer? (n : Numeral) : Option Int :=
  if n.fraction.isEmpty && n.exponent.isNone then
    if n.negative then
      if 0 < n.whole ∧ n.whole ≤ Nat.pow 2 63 then some (-(n.whole : Int)) else none
    else if n.whole < UInt64.size then some n.whole else none
  else none

/-- The leading digits that fit 64 bits, and how many digits were left out after the first that
did not fit. -/
def wholeSignificand (digits : List Nat) : Nat × Nat :=
  digits.foldl (fun (value, dropped) d =>
    if dropped = 0 ∧ value * 10 + d < UInt64.size then (value * 10 + d, 0) else (value, dropped + 1))
    (0, 0)

def addFraction : List (Fin 10) → Nat × Int → Nat × Int
  | [], acc => acc
  | d :: rest, (value, scale) =>
    if value * 10 + d.val < UInt64.size then addFraction rest (value * 10 + d.val, scale - 1)
    else (value, scale)

def significand (n : Numeral) : Nat × Int :=
  let (value, dropped) :=
    wholeSignificand ((Text.natural n.whole).map fun c => c.toNat - 48)
  let (value, scale) := addFraction n.fraction (value, dropped)
  (value, scale + n.exponent.getD 0)

def powerOfTen (n : Nat) : Float := Float.ofScientific 1 false n

def scale? (f : Float) (e : Int) : Option Float :=
  if 0 ≤ e then
    if e ≤ 308 then
      let scaled := f * powerOfTen e.toNat
      if scaled.isInf then none else some scaled
    else if f == 0 then some f else none
  else if -308 ≤ e then some (f / powerOfTen (-e).toNat)
  else if -616 ≤ e then some (f / powerOfTen 308 / powerOfTen (-(e + 308)).toNat)
  else some 0

def float? (n : Numeral) : Option Float :=
  match n.integer? with
  | some i => some (Float.ofInt i)
  | none =>
    let (value, e) := n.significand
    (scale? value.toFloat e).map fun f => if n.negative then -f else f

end Numeral

end TaintScan.Json
