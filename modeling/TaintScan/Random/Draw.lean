import TaintScan.Breakdown
import TaintScan.Random.ChaCha
import TaintScan.Uuid

namespace TaintScan.Random

structure Source where
  word : Nat → UInt32
  used : Nat

abbrev Draw (α : Type) := StateM Source α

abbrev Trial (α : Type) := ExceptT Breakdown Draw α

namespace Source

def ofSeed (seed : UInt64) : Source := ⟨ChaCha.stream seed, 0⟩

end Source

def word32 : Draw UInt32 := fun s => (s.word s.used, { s with used := s.used + 1 })

def word64 : Draw UInt64 := do
  let low ← word32
  let high ← word32
  return low.toUInt64 ||| (high.toUInt64 <<< 32)

def bytes : Nat → Draw (List UInt8)
  | 0 => return []
  | n + 1 => do
    let w ← word32
    let rest ← bytes n
    return w.toUInt8 :: rest

def uuid : Draw Uuid := Uuid.ofRandomBytes <$> bytes 16

inductive Width
  | narrow
  | wide
deriving DecidableEq

namespace Width

def bits : Width → Nat
  | narrow => 32
  | wide => 64

def count (w : Width) : Nat := Nat.pow 2 w.bits

def draw : Width → Draw Nat
  | narrow => UInt32.toNat <$> word32
  | wide => UInt64.toNat <$> word64

end Width

/-- The largest low half of a product that is accepted, so that each of `n` results has the same
number of accepted words. -/
def acceptedZone (bits n : Nat) : Nat := n <<< (bits - (n.log2 + 1)) - 1

/-- How many words there are before a stream repeats. When all of them are rejected, no number is
ever found. -/
def patience : Nat := 295147905179352825856

def scaledWord (width : Width) (n : Nat) : Nat → Draw Nat
  | 0 => do
    let v ← width.draw
    return v * n / width.count
  | tries + 1 => do
    let v ← width.draw
    if v * n % width.count ≤ acceptedZone width.bits n then return v * n / width.count
    else scaledWord width n tries

def below (width : Width) (n : Nat) : Draw Nat :=
  if n = width.count then width.draw else scaledWord width n patience

/-- An integer between two bounds, both included. When every word is a result, the result is the
integer of the range that is congruent to the word. -/
def between (width : Width) (low high : Int) : Draw Int := do
  let count := (high - low + 1).toNat
  let offset ← below width count
  if count = width.count then return low + (offset - low) % (count : Int)
  else return low + offset

def index (length : Nat) : Draw Nat := below .narrow length

def choose? (items : List α) : Draw (Option α) :=
  if items.isEmpty then return none
  else do
    let i ← index items.length
    return items[i]?

def shuffleFrom : Nat → Array α → Draw (Array α)
  | 0, items => return items
  | n + 1, items => do
    let j ← index (n + 2)
    shuffleFrom n (items.swapIfInBounds (n + 1) j)

def shuffle (items : List α) : Draw (List α) := do
  let shuffled ← shuffleFrom (items.length - 1) items.toArray
  return shuffled.toList

def clampProbability (p : Float) : Float := if p < 0 then 0 else if 1 < p then 1 else p

/-- True with a probability, which must be a number. Nothing is drawn for certainty. -/
def chance (p : Float) : Trial Bool :=
  let p := clampProbability p
  if p.isNaN then throw .probability
  else if p == 1 then return true
  else do
    let w ← word64
    return w < (p * 18446744073709551616.0).toUInt64

def times [Monad m] : Nat → m α → m (List α)
  | 0, _ => return []
  | n + 1, d => do
    let a ← d
    let rest ← times n d
    return a :: rest

end TaintScan.Random
